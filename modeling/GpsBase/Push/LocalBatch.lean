import GpsBase.Lib.Machine
import GpsBase.Mailbox.Slots

/-! # The batch of the local caster

`RtcmBatch`: frames one after the other in a buffer, with the offset at which each of them ends, flushed
frame by frame when the buffer or the table of ends is full, or when 200 ms are over. A write past the end
of either is undefined, and the step has no result then. `Holds` says which frames a batch holds; a run
loses none, repeats none, stays inside both arrays and leaves none waiting for longer (`local_batch`). -/

namespace GpsBase.Push.LocalBatch

open GpsBase.Lib GpsBase.Mailbox.Slots GpsBase.Rtcm.Parser

/-! ### The code -/

def kMaxFramesPerBatch : ℕ := 12

structure RtcmBatch where
  data : List UInt8
  length : ℕ
  nextFlushUs : ℤ
  frameEnds : List ℕ
  frameCount : ℕ
  data_size : data.length = kMaxRtcmFrame
  ends_size : frameEnds.length = kMaxFramesPerBatch

/-- The loop of `flush_batch_frames`: from each end to the next. -/
def cut (data : List UInt8) (start : ℕ) : List ℕ → List (List UInt8)
  | [] => []
  | e :: ends => (data.drop start).take (e - start) :: cut data e ends

/-- `memcpy` to an offset of a buffer. -/
def memcpyAt (dst : List UInt8) (offset : ℕ) (src : List UInt8) : List UInt8 :=
  dst.take offset ++ src ++ dst.drop (offset + src.length)

theorem length_memcpyAt {dst src : List UInt8} {offset : ℕ} (h : offset + src.length ≤ dst.length) :
    (memcpyAt dst offset src).length = dst.length := by
  simp only [memcpyAt, List.length_append, List.length_take, List.length_drop]
  omega

namespace RtcmBatch

/-- The batch part of `reset_rtcm_state`. -/
def reset (b : RtcmBatch) : RtcmBatch := { b with length := 0, frameCount := 0, nextFlushUs := 0 }

/-- The frames a flush hands to its callback. -/
def pending (b : RtcmBatch) : List (List UInt8) := cut b.data 0 (b.frameEnds.take b.frameCount)

/-- `flush_batch_frames`, with its callbacks. -/
def flushBatchFrames (b : RtcmBatch) : RtcmBatch × List (List UInt8) :=
  ({ b with length := 0, frameCount := 0 }, b.pending)

/-- The frame behind the others, and its end; no result where a write is out of bounds. -/
def append (b : RtcmBatch) (frame : List UInt8) : Option RtcmBatch :=
  if h : b.length + frame.length ≤ kMaxRtcmFrame ∧ b.frameCount < kMaxFramesPerBatch then
    some { b with
      data := memcpyAt b.data b.length frame
      length := b.length + frame.length
      frameEnds := b.frameEnds.set b.frameCount (b.length + frame.length)
      frameCount := b.frameCount + 1
      data_size := by rw [length_memcpyAt (by rw [b.data_size]; exact h.1), b.data_size]
      ends_size := by rw [List.length_set, b.ends_size] }
  else none

/-- `publish_to_batch`, with the callbacks of its flushes. -/
def publishToBatch (b : RtcmBatch) (frame : List UInt8) (now phaseOffsetUs : ℤ) :
    Option (RtcmBatch × List (List UInt8)) :=
  let bytesFull := 0 < b.length ∧ kMaxRtcmFrame < b.length + frame.length
  let framesFull := kMaxFramesPerBatch ≤ b.frameCount
  let full := if bytesFull ∨ framesFull then
      ({ b.flushBatchFrames.1 with nextFlushUs := now + kRtcmBatchUs }, b.flushBatchFrames.2)
    else (b, [])
  (full.1.append frame).map fun b =>
    let b := if b.nextFlushUs = 0 then { b with nextFlushUs := now + phaseOffsetUs + kRtcmBatchUs } else b
    if b.nextFlushUs ≤ now then
      ({ b.flushBatchFrames.1 with nextFlushUs := now + kRtcmBatchUs }, full.2 ++ b.flushBatchFrames.2)
    else (b, full.2)

/-- `flush_due_batch`, with its callbacks. -/
def flushDueBatch (b : RtcmBatch) (now : ℤ) : RtcmBatch × List (List UInt8) :=
  if 0 < b.length ∧ b.nextFlushUs ≠ 0 ∧ b.nextFlushUs ≤ now then
    ({ b.flushBatchFrames.1 with nextFlushUs := now + kRtcmBatchUs }, b.flushBatchFrames.2)
  else (b, [])

end RtcmBatch

/-! ### Runs -/

/-- A call about the local batch; its phase offset is `0`. -/
inductive Event
  | publish (frame : List UInt8) (now : ℤ)
  | flushDue (now : ℤ)

def Event.time : Event → ℤ
  | publish _ now => now
  | flushDue now => now

/-- Frames of 6 to 1200 bytes. -/
def Event.Sized : Event → Prop
  | publish frame _ => 6 ≤ frame.length ∧ frame.length ≤ kMaxRtcmFrame
  | flushDue _ => True

/-- The batch, the frames flushed, and those published with their times. -/
structure World where
  batch : RtcmBatch
  flushed : List (List UInt8)
  published : List (List UInt8 × ℤ)

def step (w : World) : Event → Option World
  | .publish frame now =>
    (w.batch.publishToBatch frame now 0).map fun r =>
      { batch := r.1, flushed := w.flushed ++ r.2, published := w.published ++ [(frame, now)] }
  | .flushDue now =>
    let r := w.batch.flushDueBatch now
    some { w with batch := r.1, flushed := w.flushed ++ r.2 }

/-- Calls at positive times that do not decrease. -/
structure Timed (events : List Event) : Prop where
  order : events.Pairwise fun e f => e.time ≤ f.time
  positive : ∀ e ∈ events, 0 < e.time
  sized : ∀ e ∈ events, e.Sized

/-! ### Ends -/

/-- The ends of frames that begin at `start`. -/
def ends (start : ℕ) : List (List UInt8) → List ℕ
  | [] => []
  | f :: fs => (start + f.length) :: ends (start + f.length) fs

theorem ends_append (start : ℕ) (fs : List (List UInt8)) (f : List UInt8) :
    ends start (fs ++ [f]) = ends start fs ++ [start + fs.flatten.length + f.length] := by
  induction fs generalizing start with
  | nil => simp [ends]
  | cons g fs ih => simp [ends, ih, add_assoc]

/-- **Frames are cut out where they were put.** -/
theorem cut_ends (before after : List UInt8) (fs : List (List UInt8)) :
    cut (before ++ fs.flatten ++ after) before.length (ends before.length fs) = fs := by
  induction fs generalizing before with
  | nil => rfl
  | cons f fs ih =>
    have hrest := ih (before ++ f)
    rw [List.length_append] at hrest
    unfold ends cut
    rw [Nat.add_sub_cancel_left, List.flatten_cons]
    congr 1
    · simp [List.append_assoc]
    · rw [← List.append_assoc]
      exact hrest

structure Holds (b : RtcmBatch) (fs : List (List UInt8)) : Prop where
  length : b.length = fs.flatten.length
  data : b.data.take b.length = fs.flatten
  count : b.frameCount = fs.length
  ends : b.frameEnds.take b.frameCount = ends 0 fs

theorem Holds.pending {b : RtcmBatch} {fs : List (List UInt8)} (h : Holds b fs) : b.pending = fs := by
  have hcut := cut_ends [] (b.data.drop b.length) fs
  rw [List.nil_append, ← h.data, List.take_append_drop] at hcut
  unfold RtcmBatch.pending
  rw [h.ends]
  exact hcut

theorem holds_cleared (b : RtcmBatch) (next : ℤ) :
    Holds { b with length := 0, frameCount := 0, nextFlushUs := next } [] :=
  ⟨rfl, rfl, rfl, rfl⟩

theorem Holds.next {b : RtcmBatch} {fs : List (List UInt8)} (h : Holds b fs) (next : ℤ) :
    Holds { b with nextFlushUs := next } fs := ⟨h.length, h.data, h.count, h.ends⟩

/-- **A frame more**, where there is room. -/
theorem Holds.append {b : RtcmBatch} {fs : List (List UInt8)} (h : Holds b fs) {f : List UInt8}
    (hbytes : b.length + f.length ≤ kMaxRtcmFrame) (hframes : b.frameCount < kMaxFramesPerBatch) :
    ∃ b', b.append f = some b' ∧ Holds b' (fs ++ [f]) ∧ b'.nextFlushUs = b.nextFlushUs := by
  unfold RtcmBatch.append
  rw [dif_pos ⟨hbytes, hframes⟩]
  have hlength : b.length ≤ b.data.length := by
    rw [b.data_size]
    omega
  refine ⟨_, rfl, ⟨?_, ?_, ?_, ?_⟩, rfl⟩
  · show b.length + f.length = _
    rw [h.length]
    simp
  · show (memcpyAt b.data b.length f).take (b.length + f.length) = _
    unfold memcpyAt
    rw [List.flatten_append, ← h.data, List.take_left' (by simp [hlength])]
    simp
  · show b.frameCount + 1 = _
    rw [h.count]
    simp
  · show (b.frameEnds.set b.frameCount (b.length + f.length)).take (b.frameCount + 1) = _
    rw [ends_append, ← h.ends, List.take_add_one, List.take_set_of_le le_rfl,
      List.getElem?_set_self (by rw [b.ends_size]; exact hframes), Nat.zero_add, ← h.length]
    rfl

/-! ### The invariant -/

/-- What holds after the calls up to `clock`: the frames published are those flushed and those held, and
none of these is due later than 200 ms after it was published. -/
structure Inv (w : World) (clock : ℤ) (held : List (List UInt8 × ℤ)) : Prop where
  holds : Holds w.batch (held.map Prod.fst)
  published : ∃ before, w.published = before ++ held ∧ w.flushed = before.map Prod.fst
  nonempty : ∀ p ∈ held, p.1 ≠ []
  armed : held ≠ [] → w.batch.nextFlushUs ≠ 0
  due : ∀ p ∈ held, w.batch.nextFlushUs ≤ p.2 + kRtcmBatchUs
  soon : w.batch.nextFlushUs ≤ clock + kRtcmBatchUs
  length_le : w.batch.length ≤ kMaxRtcmFrame
  count_le : w.batch.frameCount ≤ kMaxFramesPerBatch

theorem Inv.flush {w : World} {clock : ℤ} {held : List (List UInt8 × ℤ)} (h : Inv w clock held) (now : ℤ) :
    Inv { w with
      batch := { w.batch.flushBatchFrames.1 with nextFlushUs := now + kRtcmBatchUs }
      flushed := w.flushed ++ w.batch.flushBatchFrames.2 } now [] := by
  obtain ⟨before, hpublished, hflushed⟩ := h.published
  refine ⟨holds_cleared w.batch _, ⟨before ++ held, ?_, ?_⟩, fun p hp => (by cases hp),
    fun hne => absurd rfl hne, fun p hp => (by cases hp), le_rfl, Nat.zero_le _, Nat.zero_le _⟩
  · rw [List.append_nil]
    exact hpublished
  · show w.flushed ++ w.batch.pending = _
    rw [h.holds.pending, hflushed, List.map_append]

/-- A frame more, where there is room; the schedule is armed if it was not. -/
theorem Inv.append {w : World} {clock now : ℤ} {held : List (List UInt8 × ℤ)} (h : Inv w clock held)
    (hnow : clock ≤ now) (hpositive : 0 < now) {frame : List UInt8} (hframe : 6 ≤ frame.length)
    (hbytes : w.batch.length + frame.length ≤ kMaxRtcmFrame)
    (hframes : w.batch.frameCount < kMaxFramesPerBatch) :
    ∃ b, w.batch.append frame = some b ∧
      Inv { w with
        batch := if b.nextFlushUs = 0 then { b with nextFlushUs := now + 0 + kRtcmBatchUs } else b
        published := w.published ++ [(frame, now)] } now (held ++ [(frame, now)]) := by
  obtain ⟨b, happend, hholds, hnext⟩ := h.holds.append hbytes hframes
  obtain ⟨before, hpublished, hflushed⟩ := h.published
  have hnewHolds : Holds b ((held ++ [(frame, now)]).map Prod.fst) := by
    rw [List.map_append]
    exact hholds
  have hlength : b.length ≤ kMaxRtcmFrame := by
    rw [hnewHolds.length, List.map_append, List.flatten_append, List.length_append, ← h.holds.length]
    simpa using hbytes
  have hcount : b.frameCount ≤ kMaxFramesPerBatch := by
    rw [hnewHolds.count, List.map_append, List.length_append, ← h.holds.count]
    simpa using hframes
  have hnonempty : ∀ p ∈ held ++ [(frame, now)], p.1 ≠ [] := by
    intro p hp
    rcases List.mem_append.mp hp with hp | hp
    · exact h.nonempty p hp
    · rw [List.mem_singleton.mp hp]
      rintro rfl
      exact absurd hframe (by decide)
  have hsplit : ∃ pre, w.published ++ [(frame, now)] = pre ++ (held ++ [(frame, now)]) ∧
      w.flushed = pre.map Prod.fst :=
    ⟨before, by rw [hpublished, List.append_assoc], hflushed⟩
  refine ⟨b, happend, ?_⟩
  by_cases hzero : b.nextFlushUs = 0
  · rw [if_pos hzero]
    have hnil : held = [] := by
      by_contra hne
      exact h.armed hne (hnext.symm.trans hzero)
    subst hnil
    refine ⟨hnewHolds.next _, hsplit, hnonempty, fun _ => ?_, fun p hp => ?_, ?_, hlength, hcount⟩
    · show now + 0 + kRtcmBatchUs ≠ 0
      unfold kRtcmBatchUs
      omega
    · rw [List.mem_singleton.mp hp]
      exact (by omega : now + 0 + kRtcmBatchUs ≤ now + kRtcmBatchUs)
    · exact (by omega : now + 0 + kRtcmBatchUs ≤ now + kRtcmBatchUs)
  · rw [if_neg hzero]
    have hsoon : b.nextFlushUs ≤ now + kRtcmBatchUs := by
      have hold := h.soon
      rw [hnext]
      omega
    refine ⟨hnewHolds, hsplit, hnonempty, fun _ => hzero, fun p hp => ?_, hsoon, hlength, hcount⟩
    rcases List.mem_append.mp hp with hp | hp
    · have hold := h.due p hp
      rw [← hnext] at hold
      exact hold
    · rw [List.mem_singleton.mp hp]
      exact hsoon

theorem Inv.publish {w : World} {clock now : ℤ} {held : List (List UInt8 × ℤ)} (h : Inv w clock held)
    (hnow : clock ≤ now) (hpositive : 0 < now) {frame : List UInt8} (hframe : 6 ≤ frame.length)
    (hlength : frame.length ≤ kMaxRtcmFrame) :
    ∃ w' held', step w (.publish frame now) = some w' ∧ Inv w' now held' := by
  unfold step RtcmBatch.publishToBatch
  dsimp only
  by_cases hfull : (0 < w.batch.length ∧ kMaxRtcmFrame < w.batch.length + frame.length) ∨
      kMaxFramesPerBatch ≤ w.batch.frameCount
  · -- the batch is flushed first, and the next flush is later than now
    rw [if_pos hfull]
    obtain ⟨b, happend, hinv⟩ := (h.flush now).append le_rfl hpositive hframe
      ((Nat.zero_add _).trans_le hlength) (Nat.zero_lt_succ _)
    have hlater : ¬ (if b.nextFlushUs = 0 then { b with nextFlushUs := now + 0 + kRtcmBatchUs }
        else b).nextFlushUs ≤ now := by
      have hnext : b.nextFlushUs = now + kRtcmBatchUs := by
        obtain ⟨b', hb', -, hsame⟩ := (h.flush now).holds.append (f := frame)
          ((Nat.zero_add _).trans_le hlength) (Nat.zero_lt_succ _)
        rw [happend] at hb'
        cases hb'
        exact hsame
      rw [if_neg (by rw [hnext]; unfold kRtcmBatchUs; omega), hnext]
      unfold kRtcmBatchUs
      omega
    rw [happend, Option.map_some, if_neg hlater, Option.map_some]
    exact ⟨_, _, rfl, hinv⟩
  · rw [if_neg hfull]
    obtain ⟨hbytes, hframes⟩ := not_or.mp hfull
    have hroom : w.batch.length + frame.length ≤ kMaxRtcmFrame := by
      rcases Nat.eq_zero_or_pos w.batch.length with hzero | hpos
      · omega
      · exact Nat.le_of_not_lt fun hlt => hbytes ⟨hpos, hlt⟩
    obtain ⟨b, happend, hinv⟩ := h.append hnow hpositive hframe hroom (Nat.lt_of_not_le hframes)
    rw [happend, Option.map_some]
    by_cases hdue : (if b.nextFlushUs = 0 then { b with nextFlushUs := now + 0 + kRtcmBatchUs }
        else b).nextFlushUs ≤ now
    · rw [if_pos hdue, Option.map_some]
      exact ⟨_, _, rfl, hinv.flush now⟩
    · rw [if_neg hdue, Option.map_some]
      refine ⟨_, held ++ [(frame, now)], rfl, ?_⟩
      rw [List.append_nil]
      exact hinv

/-- **The schedule is looked at**: what is still held was published less than 200 ms ago. -/
theorem Inv.flushDue {w : World} {clock now : ℤ} {held : List (List UInt8 × ℤ)} (h : Inv w clock held)
    (hnow : clock ≤ now) : ∃ w' held', step w (.flushDue now) = some w' ∧ Inv w' now held' ∧
      ∀ p ∈ held', now - kRtcmBatchUs < p.2 := by
  unfold step RtcmBatch.flushDueBatch
  dsimp only
  by_cases hdue : 0 < w.batch.length ∧ w.batch.nextFlushUs ≠ 0 ∧ w.batch.nextFlushUs ≤ now
  · rw [if_pos hdue]
    exact ⟨_, _, rfl, h.flush now, fun p hp => (by cases hp)⟩
  · rw [if_neg hdue]
    have hsoon : w.batch.nextFlushUs ≤ now + kRtcmBatchUs := by
      have hold := h.soon
      omega
    refine ⟨_, held, rfl, ⟨h.holds, ?_, h.nonempty, h.armed, h.due, hsoon, h.length_le, h.count_le⟩,
      fun p hp => ?_⟩
    · rw [List.append_nil]
      exact h.published
    · have hpos : 0 < w.batch.length := by
        rw [h.holds.length]
        refine Nat.pos_of_ne_zero fun hzero => h.nonempty p hp ?_
        exact List.flatten_eq_nil_iff.mp (List.eq_nil_of_length_eq_zero hzero) p.1
          (List.mem_map_of_mem hp)
      have harmed := h.armed (List.ne_nil_of_mem hp)
      have hlater : now < w.batch.nextFlushUs := lt_of_not_ge fun hle => hdue ⟨hpos, harmed, hle⟩
      have hp := h.due p hp
      omega

/-! ### Over a run no frame is lost and none waits for 200 ms -/

/-- The time of the last call, `0` before the first. -/
def clock (events : List Event) : ℤ := (events.getLast?.map Event.time).getD 0

theorem Timed.init {events : List Event} {e : Event} (h : Timed (events ++ [e])) : Timed events :=
  ⟨(List.pairwise_append.mp h.order).1, fun f hf => h.positive f (List.mem_append_left _ hf),
    fun f hf => h.sized f (List.mem_append_left _ hf)⟩

theorem Timed.clock_le {events : List Event} {e : Event} (h : Timed (events ++ [e])) :
    clock events ≤ e.time ∧ 0 < e.time := by
  have hpositive := h.positive e (List.mem_append_right _ (List.mem_singleton_self e))
  refine ⟨?_, hpositive⟩
  unfold clock
  rcases hlast : events.getLast? with _ | f
  · exact hpositive.le
  · exact (List.pairwise_append.mp h.order).2.2 f (List.mem_of_getLast? hlast) e (List.mem_singleton_self e)

theorem run_spec (b : RtcmBatch) {events : List Event} (ht : Timed events) :
    ∃ w held, Machine.run step ⟨b.reset, [], []⟩ events = some w ∧ Inv w (clock events) held ∧
      ∀ now, events.getLast? = some (.flushDue now) → ∀ p ∈ held, now - kRtcmBatchUs < p.2 := by
  induction events using List.reverseRecOn with
  | nil =>
    refine ⟨_, [], rfl, ⟨holds_cleared b 0, ⟨[], rfl, rfl⟩, fun p hp => (by cases hp),
      fun hne => absurd rfl hne, fun p hp => (by cases hp), ?_, Nat.zero_le _, Nat.zero_le _⟩,
      fun now h => (by cases h)⟩
    exact (by decide : (0 : ℤ) ≤ 0 + kRtcmBatchUs)
  | append_singleton events e ih =>
    obtain ⟨w, held, hrun, hinv, -⟩ := ih ht.init
    obtain ⟨hclock, hpositive⟩ := ht.clock_le
    have hstep : Machine.run step ⟨b.reset, [], []⟩ (events ++ [e]) = step w e := by
      rw [Machine.run_append, hrun]
      exact Option.bind_fun_some _
    have hlast : (events ++ [e]).getLast? = some e := List.getLast?_concat
    have hnow : clock (events ++ [e]) = e.time := by
      unfold clock
      rw [hlast]
      rfl
    rw [hstep, hnow, hlast]
    cases e with
    | publish frame now =>
      obtain ⟨hsmall, hbig⟩ := ht.sized (.publish frame now)
        (List.mem_append_right _ (List.mem_singleton_self _))
      obtain ⟨w', held', hw', hinv'⟩ := hinv.publish hclock hpositive hsmall hbig
      exact ⟨w', held', hw', hinv', fun now h => (by cases h)⟩
    | flushDue now =>
      obtain ⟨w', held', hw', hinv', hfresh⟩ := hinv.flushDue hclock
      refine ⟨w', held', hw', hinv', fun t ht => ?_⟩
      cases ht
      exact hfresh

/-- **The local batch**: no write is out of bounds; the callbacks and the frames that are pending are the
frames published, in order; and after `flush_due_batch` every frame pending was published less than
200 ms ago. -/
theorem local_batch (b : RtcmBatch) {events : List Event} (ht : Timed events) :
    ∃ w, Machine.run step ⟨b.reset, [], []⟩ events = some w ∧
      w.flushed ++ w.batch.pending = w.published.map Prod.fst ∧
      w.batch.length ≤ kMaxRtcmFrame ∧ w.batch.frameCount ≤ kMaxFramesPerBatch ∧
      ∀ now, events.getLast? = some (.flushDue now) →
        ∀ p ∈ w.published.drop w.flushed.length, now - 200000 < p.2 := by
  obtain ⟨w, held, hrun, hinv, hfresh⟩ := run_spec b ht
  obtain ⟨before, hpublished, hflushed⟩ := hinv.published
  refine ⟨w, hrun, ?_, hinv.length_le, hinv.count_le, fun now hlast p hp => ?_⟩
  · rw [hinv.holds.pending, hpublished, List.map_append, hflushed]
  · have hheld : w.published.drop w.flushed.length = held := by
      rw [hpublished, hflushed, List.length_map, List.drop_left]
    rw [hheld] at hp
    exact hfresh now hlast p hp

def emptyBatch : RtcmBatch where
  data := List.replicate kMaxRtcmFrame 0
  length := 0
  nextFlushUs := 0
  frameEnds := List.replicate kMaxFramesPerBatch 0
  frameCount := 0
  data_size := length_unwritten
  ends_size := List.length_replicate

/-- Two frames, a look at the schedule in between, and one when it is due. -/
def sampleCalls : List Event :=
  [.publish [1, 2, 3, 4, 5, 6] 7, .flushDue 100000, .publish [7, 8, 9, 10, 11, 12] 150000, .flushDue 200007]

theorem local_batch_sample : ∃ w, Machine.run step ⟨emptyBatch.reset, [], []⟩ sampleCalls = some w ∧
    w.flushed ++ w.batch.pending = w.published.map Prod.fst ∧
    w.batch.length ≤ kMaxRtcmFrame ∧ w.batch.frameCount ≤ kMaxFramesPerBatch ∧
    ∀ now, sampleCalls.getLast? = some (.flushDue now) →
      ∀ p ∈ w.published.drop w.flushed.length, now - 200000 < p.2 := by
  have hsized : ∀ e ∈ sampleCalls, e.Sized := by
    simp [sampleCalls, Event.Sized, kMaxRtcmFrame]
  exact local_batch emptyBatch ⟨by decide, by decide, hsized⟩

end GpsBase.Push.LocalBatch
