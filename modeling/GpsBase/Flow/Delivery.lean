import GpsBase.Flow.Pipeline
import GpsBase.Rtcm.Decoding

/-! # What reaches the local casters' clients

The frames published are valid and disjoint pieces of the receiver's bytes, in order (`Reading`). Those
the local caster has accepted, is being handed, is still to be handed and those that wait in the batch
are, in this order, a subsequence of the frames published (`Local`). A rover on any connection therefore
decodes a subsequence of them, whatever the tasks and the network do (`local_delivery`). -/

namespace GpsBase.Flow.Delivery

open GpsBase.Lib.Machine GpsBase.Lib.Pieces GpsBase.Lib.Wire GpsBase.Mailbox.Slots
open GpsBase.Rtcm.Parser GpsBase.Rtcm.Parser.RtcmParser GpsBase.Rtcm.Framing GpsBase.Rtcm.Decoding
open GpsBase.Push GpsBase.Push.LocalBatch GpsBase.Flow.Pipeline
open GpsBase.Push.LocalCaster (Caster)
open GpsBase.Push.NtripPush (Client Constants)

/-! ### The parser -/

/-- **The frames published are valid, and pieces of the bytes read.** -/
structure Reading (s : Station) : Prop where
  wf : Wf s.parser
  begun : Begun (pending s.parser)
  pieces : ∃ done, s.fed = done ++ pending s.parser ∧ Spaced s.published done
  valid : ∀ f ∈ s.published, ValidFrame f

theorem validFrame_length {f : List UInt8} (hf : ValidFrame f) :
    6 ≤ f.length ∧ f.length ≤ kMaxRtcmFrame ∧ f ≠ [] := by
  have hge := hf.toFrameShape.length_ge
  have hle := (frameSize_bounds f).2
  rw [← hf.size] at hle
  refine ⟨hge, hle.trans (by decide), ?_⟩
  rintro rfl
  exact absurd hge (by decide)

theorem Reading.byte {s : Station} (h : Reading s) (x : UInt8) :
    Wf (feedRtcmByte s.parser x).1 ∧ Begun (pending (feedRtcmByte s.parser x).1) ∧
      (∃ done, s.fed ++ [x] = done ++ pending (feedRtcmByte s.parser x).1 ∧
        Spaced (s.published ++ (feedRtcmByte s.parser x).2.toList) done) ∧
      ∀ f, (feedRtcmByte s.parser x).2 = some f → ValidFrame f := by
  obtain ⟨hwf, hrefines⟩ := feedRtcmByte_refines h.wf x
  have hpending : pending (feedRtcmByte s.parser x).1 = (collect (pending s.parser) x).1 :=
    congrArg Prod.fst hrefines
  have hframe : (feedRtcmByte s.parser x).2 = (collect (pending s.parser) x).2 :=
    congrArg Prod.snd hrefines
  obtain ⟨hbegun, hcase⟩ := collect_sound h.begun x
  obtain ⟨done, hfed, hspaced⟩ := h.pieces
  rw [hpending, hframe, hfed, List.append_assoc]
  refine ⟨hwf, hbegun, ?_, fun f hf => ?_⟩
  · rcases hcase with ⟨hnone, g, hg⟩ | ⟨hnil, hsome, -⟩
    · rw [hnone, Option.toList_none, List.append_nil]
      exact ⟨done ++ g, by rw [hg, List.append_assoc], hspaced.append_gap g⟩
    · rw [hsome, hnil]
      exact ⟨done ++ (pending s.parser ++ [x]), by simp, hspaced.append_piece _⟩
  · rcases hcase with ⟨hnone, -⟩ | ⟨-, hsome, hvalid⟩
    · rw [hnone] at hf
      cases hf
    · rw [hsome] at hf
      cases hf
      exact hvalid

theorem Reading.step {k : PushDestination → Constants} {s s' : Station} (h : Reading s)
    (hs : StepTo k s s') : Reading s' := by
  cases hs with
  | reset hpc =>
    obtain ⟨done, hfed, hspaced⟩ := h.pieces
    refine ⟨wf_reset _, begun_nil, ⟨s.fed, by simp [Station.reset], ?_⟩, h.valid⟩
    show Spaced s.published s.fed
    rw [hfed]
    exact hspaced.append_gap _
  | byte x bytes again hpc hframe =>
    obtain ⟨hwf, hbegun, ⟨done, hfed, hspaced⟩, hvalid⟩ := h.byte x
    refine ⟨hwf, hbegun, ⟨done, hfed, ?_⟩, h.valid⟩
    rcases hf : (feedRtcmByte s.parser x).2 with _ | f
    · simpa [hf] using hspaced
    · have hlength := validFrame_length (hvalid f hf)
      rcases hframe f hf with hnil | hlong
      · exact absurd hnil hlength.2.2
      · omega
  | publish x bytes again hpc frame hframe r hr =>
    obtain ⟨hwf, hbegun, ⟨done, hfed, hspaced⟩, hvalid⟩ := h.byte x
    refine ⟨hwf, hbegun, ⟨done, hfed, by simpa [hframe] using hspaced⟩, fun f hf => ?_⟩
    rcases List.mem_append.mp hf with hf | hf
    · exact h.valid f hf
    · rw [List.mem_singleton.mp hf]
      exact hvalid frame hframe
  | _ => exact ⟨h.wf, h.begun, h.pieces, h.valid⟩

/-! ### The batch -/

/-- What a batch holds, and that both its arrays have room for it. -/
structure Fits (b : RtcmBatch) (held : List (List UInt8)) : Prop extends Holds b held where
  length_le : b.length ≤ kMaxRtcmFrame
  count_le : b.frameCount ≤ kMaxFramesPerBatch

theorem fits_flushed (b : RtcmBatch) (next : ℤ) :
    Fits { b.flushBatchFrames.1 with nextFlushUs := next } [] :=
  ⟨holds_cleared b next, Nat.zero_le _, Nat.zero_le _⟩

theorem Fits.next {b : RtcmBatch} {held : List (List UInt8)} (h : Fits b held) (next : ℤ) :
    Fits { b with nextFlushUs := next } held := ⟨h.toHolds.next next, h.length_le, h.count_le⟩

theorem Fits.append {b : RtcmBatch} {held : List (List UInt8)} (h : Fits b held) (frame : List UInt8)
    (hbytes : b.length + frame.length ≤ kMaxRtcmFrame) (hframes : b.frameCount < kMaxFramesPerBatch) :
    ∃ b', b.append frame = some b' ∧ Fits b' (held ++ [frame]) := by
  obtain ⟨b', hb', hholds, -⟩ := h.toHolds.append hbytes hframes
  refine ⟨b', hb', hholds, ?_, ?_⟩
  · rw [hholds.length, List.flatten_append, List.length_append, ← h.length]
    simpa using hbytes
  · rw [hholds.count, List.length_append, ← h.count]
    simpa using hframes

/-- The end of `publish_to_batch`, when the frame is in: the schedule is armed, and the batch flushed if
that is due. -/
def settle (b : RtcmBatch) (now phase : ℤ) (flushed : List (List UInt8)) :
    RtcmBatch × List (List UInt8) :=
  let b := if b.nextFlushUs = 0 then { b with nextFlushUs := now + phase + kRtcmBatchUs } else b
  if b.nextFlushUs ≤ now then
    ({ b.flushBatchFrames.1 with nextFlushUs := now + kRtcmBatchUs }, flushed ++ b.flushBatchFrames.2)
  else (b, flushed)

theorem Fits.settle {b : RtcmBatch} {held : List (List UInt8)} (h : Fits b held) (now phase : ℤ)
    (flushed : List (List UInt8)) : ∃ held', Fits (settle b now phase flushed).1 held' ∧
      (settle b now phase flushed).2 ++ held' = flushed ++ held := by
  have harmed : Fits (if b.nextFlushUs = 0 then { b with nextFlushUs := now + phase + kRtcmBatchUs }
      else b) held := by
    split_ifs
    · exact h.next _
    · exact h
  unfold Delivery.settle
  dsimp only
  generalize (if b.nextFlushUs = 0 then { b with nextFlushUs := now + phase + kRtcmBatchUs }
      else b) = b' at harmed ⊢
  split_ifs
  · refine ⟨[], fits_flushed b' _, ?_⟩
    rw [List.append_nil]
    exact congrArg (flushed ++ ·) harmed.pending
  · exact ⟨held, harmed, rfl⟩

/-- **A frame is published to the batch**: no write is out of bounds, and of the frames held and the new
one the first are flushed and the others held. -/
theorem Fits.publish {b : RtcmBatch} {held : List (List UInt8)} (h : Fits b held) (frame : List UInt8)
    (hframe : frame.length ≤ kMaxRtcmFrame) (now phase : ℤ) :
    ∃ r held', b.publishToBatch frame now phase = some r ∧ Fits r.1 held' ∧
      r.2 ++ held' = held ++ [frame] := by
  unfold RtcmBatch.publishToBatch
  dsimp only
  by_cases hfull : (0 < b.length ∧ kMaxRtcmFrame < b.length + frame.length) ∨
      kMaxFramesPerBatch ≤ b.frameCount
  · rw [if_pos hfull]
    obtain ⟨c, hc, hfits⟩ := (fits_flushed b (now + kRtcmBatchUs)).append frame
      ((Nat.zero_add _).trans_le hframe) (Nat.zero_lt_succ _)
    obtain ⟨held', hheld, heq⟩ := hfits.settle now phase b.flushBatchFrames.2
    rw [show b.flushBatchFrames.2 = held from h.pending] at hheld heq
    rw [hc, show b.flushBatchFrames.2 = held from h.pending]
    exact ⟨Delivery.settle c now phase held, held', rfl, hheld, heq⟩
  · rw [if_neg hfull]
    obtain ⟨hbytes, hframes⟩ := not_or.mp hfull
    have hroom : b.length + frame.length ≤ kMaxRtcmFrame := by
      rcases Nat.eq_zero_or_pos b.length with hzero | hpos
      · omega
      · exact Nat.le_of_not_lt fun hlt => hbytes ⟨hpos, hlt⟩
    obtain ⟨c, hc, hfits⟩ := h.append frame hroom (Nat.lt_of_not_le hframes)
    obtain ⟨held', hheld, heq⟩ := hfits.settle now phase []
    rw [hc]
    exact ⟨Delivery.settle c now phase [], held', rfl, hheld, heq⟩

theorem Fits.flushDue {b : RtcmBatch} {held : List (List UInt8)} (h : Fits b held) (now : ℤ) :
    ∃ held', Fits (b.flushDueBatch now).1 held' ∧ (b.flushDueBatch now).2 ++ held' = held := by
  unfold RtcmBatch.flushDueBatch
  split_ifs
  · exact ⟨[], fits_flushed b _, by rw [List.append_nil]; exact h.pending⟩
  · exact ⟨held, h, rfl⟩

/-! ### The way to the local caster -/

/-- The frame that a call of `push` has in hand. -/
def inHand : LocalCaster.PushPc → List (List UInt8)
  | .idle => []
  | .checkSuspended data => [data]
  | .send data => [data]

/-- The calls of `push` that a flush of the batch has still to make. -/
def calls : Pc → List (List UInt8)
  | .batch frames _ => frames
  | .batchCall frames _ => frames
  | _ => []

/-- A step of the worker leaves the packets accepted and `push` alone. -/
theorem caster_worked {c c' : Caster} {e : LocalCaster.Env} (h : c.work e = some c') :
    c'.out.accepted = c.out.accepted ∧ c'.producer = c.producer := by
  rcases hpc : c.pc with _ | _ | _ | _ | _ | _ | _ | _ | _ | ⟨fd, ip, req⟩ | ⟨fd, call⟩ |
    ⟨fd, slot, ip, call⟩ | _ | i | ⟨slot, call⟩ | wake | _ | _
  all_goals simp only [Caster.work, hpc] at h
  case request =>
    cases h
    unfold Caster.onRequest
    split_ifs
    · split <;> exact ⟨rfl, rfl⟩
    · exact ⟨rfl, rfl⟩
  case sendTable =>
    unfold Caster.tableStep at h
    split at h
    · cases h
      exact ⟨rfl, rfl⟩
    · obtain ⟨next, -, rfl⟩ := Option.map_eq_some_iff.mp h
      exact ⟨rfl, rfl⟩
  case sendReply =>
    unfold Caster.replyStep at h
    split at h
    · cases h
      exact ⟨rfl, rfl⟩
    · cases h
      exact ⟨rfl, rfl⟩
    · obtain ⟨next, -, rfl⟩ := Option.map_eq_some_iff.mp h
      exact ⟨rfl, rfl⟩
  case sending =>
    unfold Caster.sendingStep at h
    split at h
    · cases h
    · split at h
      · cases h
        exact ⟨rfl, rfl⟩
      · cases h
        exact ⟨rfl, rfl⟩
      · obtain ⟨next, -, rfl⟩ := Option.map_eq_some_iff.mp h
        exact ⟨rfl, rfl⟩
  case broadcast =>
    cases h
    unfold Caster.broadcastStep
    split_ifs
    · split <;> exact ⟨rfl, rfl⟩
    · exact ⟨rfl, rfl⟩
  case checkListener =>
    split_ifs at h
    · cases h
      exact ⟨rfl, rfl⟩
    · split at h <;> cases h <;> exact ⟨rfl, rfl⟩
  case receive | accept =>
    split at h <;> cases h <;> exact ⟨rfl, rfl⟩
  case delayed =>
    split_ifs at h
    cases h
    exact ⟨rfl, rfl⟩
  case exited => cases h
  all_goals
    cases h
    exact ⟨rfl, rfl⟩

/-- **The caster's own steps**, as well. -/
theorem caster_own {c c' : Caster} {j : LocalCaster.Input} (hj : casterOwn j = true)
    (h : LocalCaster.step c j = some c') :
    c'.out.accepted = c.out.accepted ∧ c'.producer = c.producer := by
  cases j with
  | work e => exact caster_worked h
  | push data => cases hj
  | produce => cases hj
  | tick us => cases hj
  | setReset =>
    simp only [LocalCaster.step, Caster.setReset] at h
    split_ifs at h
    cases h
    exact ⟨rfl, rfl⟩
  | setSuspended b =>
    cases h
    exact ⟨rfl, rfl⟩
  | stop =>
    cases h
    exact ⟨rfl, rfl⟩

/-- **What is on its way to the local caster is a subsequence of what was published.** -/
structure Local (s : Station) : Prop where
  reading : Reading s
  way : ∃ held, Fits s.batch held ∧ (s.caster.out.accepted ++ (inHand s.caster.producer ++
    (calls s.pc ++ held))).Sublist s.published
  free : (∀ frames after, s.pc ≠ .batchCall frames after) → s.caster.producer = .idle

theorem Local.same {s s' : Station} (h : Local s) (hreading : Reading s') (hbatch : s'.batch = s.batch)
    (haccepted : s'.caster.out.accepted = s.caster.out.accepted)
    (hproducer : s'.caster.producer = s.caster.producer) (hpublished : s'.published = s.published)
    (hcalls : calls s'.pc = calls s.pc)
    (hfree : (∀ frames after, s'.pc ≠ .batchCall frames after) →
      ∀ frames after, s.pc ≠ .batchCall frames after) : Local s' := by
  refine ⟨hreading, ?_, fun hpc => hproducer.trans (h.free (hfree hpc))⟩
  rw [hbatch, haccepted, hproducer, hpublished, hcalls]
  exact h.way

theorem calls_quiet {pc : Pc} (h : pc.Quiet) :
    calls pc = [] ∧ ∀ frames after, pc ≠ .batchCall frames after := by
  cases pc with
  | batch frames after => exact ⟨h.1, fun _ _ => nofun⟩
  | batchCall frames after => exact absurd h id
  | _ => exact ⟨rfl, fun _ _ => nofun⟩

/-- The frame of the next call is one the local caster takes whole. -/
theorem Local.call_valid {s : Station} (h : Local s) {frame : List UInt8} {frames : List (List UInt8)}
    {after : After} (hpc : s.pc = .batch (frame :: frames) after) :
    frame ≠ [] ∧ frame.length ≤ NtripPush.kMaxPacket := by
  obtain ⟨held, -, hway⟩ := h.way
  have hmem : frame ∈ s.published := by
    refine hway.subset ?_
    rw [hpc]
    exact List.mem_append_right _ (List.mem_append_right _ List.mem_cons_self)
  obtain ⟨-, hlength, hne⟩ := validFrame_length (h.reading.valid frame hmem)
  exact ⟨hne, hlength⟩

/-- A step of `push` takes the frame in hand to the queue, or drops it. -/
theorem produce_way {c c' : Caster} (h : c.produce = some c') (rest : List (List UInt8)) :
    (c'.out.accepted ++ (inHand c'.producer ++ rest)).Sublist
      (c.out.accepted ++ (inHand c.producer ++ rest)) := by
  have hdrop : ∀ data : List UInt8, (c.out.accepted ++ rest).Sublist (c.out.accepted ++ (data :: rest)) :=
    fun data => (List.append_sublist_append_left _).mpr (List.sublist_cons_self data rest)
  unfold Caster.produce at h
  rcases hp : c.producer with _ | data | data <;> rw [hp] at h
  · cases h
  · cases h
    dsimp only
    split_ifs
    · exact hdrop data
    · exact List.Sublist.refl _
  · simp only at h
    split_ifs at h <;> cases h
    · show ((c.out.accepted ++ [data]) ++ ([] ++ rest)).Sublist _
      rw [List.append_assoc]
      exact List.Sublist.refl _
    · exact hdrop data

theorem Local.step {k : PushDestination → Constants} {s s' : Station} (h : Local s)
    (hs : StepTo k s s') : Local s' := by
  have hreading := h.reading.step hs
  obtain ⟨held, hfits, hway⟩ := h.way
  cases hs with
  | reset hpc =>
    have hidle := h.free fun frames after heq => by rw [hpc] at heq; cases heq
    have hdropped : (s.caster.out.accepted ++ (inHand s.caster.producer ++ (calls s.pc ++ []))).Sublist
        (s.caster.out.accepted ++ (inHand s.caster.producer ++ (calls s.pc ++ held))) :=
      (List.Sublist.refl _).append ((List.Sublist.refl _).append
        ((List.Sublist.refl _).append (List.nil_sublist held)))
    exact ⟨hreading, ⟨[], fits_flushed s.batch 0, hdropped.trans hway⟩, fun _ => hidle⟩
  | move pc times hfrom hto =>
    refine h.same hreading rfl rfl rfl rfl ?_ fun _ => (calls_quiet hfrom).2
    rw [(calls_quiet hfrom).1]
    exact (calls_quiet hto).1
  | byte x bytes again hpc hframe =>
    exact h.same hreading rfl rfl rfl rfl (by rw [hpc]; rfl) fun _ => by rw [hpc]; exact fun _ _ => nofun
  | publish x bytes again hpc frame hframe r hr =>
    have hvalid : ValidFrame frame := hreading.valid frame (List.mem_append_right _ (by simp))
    obtain ⟨r', held', hr', hfits', hheld⟩ := hfits.publish frame (validFrame_length hvalid).2.1 s.now 0
    obtain rfl : r = r' := Option.some.inj (hr.symm.trans hr')
    refine ⟨hreading, ⟨held', hfits', ?_⟩, fun _ => h.free fun _ _ => by rw [hpc]; nofun⟩
    show (s.caster.out.accepted ++ (inHand s.caster.producer ++ (r.2 ++ held'))).Sublist
      (s.published ++ [frame])
    rw [hheld, ← List.append_assoc, ← List.append_assoc]
    rw [hpc, ← List.append_assoc] at hway
    exact hway.append (List.Sublist.refl [frame])
  | flush hpc =>
    obtain ⟨held', hfits', hheld⟩ := hfits.flushDue s.now
    refine ⟨hreading, ⟨held', hfits', ?_⟩, fun _ => h.free fun _ _ => by rw [hpc]; nofun⟩
    show (s.caster.out.accepted ++ (inHand s.caster.producer ++
      ((s.batch.flushDueBatch s.now).2 ++ held'))).Sublist s.published
    rw [hheld]
    rwa [hpc] at hway
  | post frame now bytes again hpc =>
    exact h.same hreading rfl rfl rfl rfl (by rw [hpc]; rfl) fun _ => by rw [hpc]; exact fun _ _ => nofun
  | casterPush frame frames after hpc c hc =>
    have hidle := h.free fun _ _ => by rw [hpc]; nofun
    rw [hpc, hidle] at hway
    obtain ⟨hne, hlength⟩ := h.call_valid hpc
    have hpush : s.caster.push frame = some { s.caster with producer := .checkSuspended frame } := by
      unfold Caster.push
      rw [if_pos hidle, if_neg hne, List.take_of_length_le hlength]
    rw [hpush] at hc
    cases hc
    exact ⟨hreading, ⟨held, hfits, hway⟩, fun hpc' => absurd rfl (hpc' frames after)⟩
  | casterProduce frames after hpc c hc =>
    refine ⟨hreading, ⟨held, hfits, ?_⟩, fun hpc' => absurd hpc (hpc' frames after)⟩
    exact (produce_way hc (calls s.pc ++ held)).trans hway
  | casterReturn frames after hpc hidle =>
    refine ⟨hreading, ⟨held, hfits, ?_⟩, fun _ => hidle⟩
    rwa [hpc] at hway
  | clientPush d now i hpc hskip c hc =>
    exact h.same hreading rfl rfl rfl rfl (by rw [hpc]; rfl) fun _ => by rw [hpc]; exact fun _ _ => nofun
  | clientProduce d now i hpc c hc => exact h.same hreading rfl rfl rfl rfl rfl id
  | accepted d now i hpc hreturned =>
    exact h.same hreading rfl rfl rfl rfl (by rw [hpc]; rfl) fun _ => by rw [hpc]; exact fun _ _ => nofun
  | refused d now i hpc hreturned =>
    exact h.same hreading rfl rfl rfl rfl (by rw [hpc]; rfl) fun _ => by rw [hpc]; exact fun _ _ => nofun
  | caster j hj c hc =>
    obtain ⟨haccepted, hproducer⟩ := caster_own hj hc
    exact h.same hreading rfl haccepted hproducer rfl rfl id
  | client d j hj c hc => exact h.same hreading rfl rfl rfl rfl rfl id
  | tick us => exact h.same hreading rfl rfl rfl rfl rfl id

theorem local_started {s : Station} (h : Started s) : Local s := by
  obtain ⟨b, r, hcaster⟩ := h.caster
  obtain ⟨hfed, hpublished, -⟩ := h.record
  obtain ⟨hlength, hexpected⟩ := h.parser
  have hpending : pending s.parser = [] := by rw [pending, hlength, List.take_zero]
  have hwf : Wf s.parser := ⟨fun _ => hexpected, fun hlong => by omega⟩
  have hfits : Fits s.batch [] :=
    ⟨⟨h.batch.1, by simp [h.batch.1], h.batch.2, by simp [h.batch.2, LocalBatch.ends]⟩,
      h.batch.1.trans_le (Nat.zero_le _), h.batch.2.trans_le (Nat.zero_le _)⟩
  refine ⟨⟨hwf, by rw [hpending]; exact begun_nil, ⟨[], by rw [hfed, hpending]; rfl, ?_⟩, ?_⟩,
    ⟨[], hfits, ?_⟩, fun _ => by rw [hcaster]; rfl⟩
  · rw [hpublished]
    exact .gap []
  · simp [hpublished]
  · rw [hcaster, h.pc]
    exact List.nil_sublist _

theorem local_reaches {k : PushDestination → Constants} {s₀ s : Station} (h₀ : Started s₀)
    (h : Reaches (step k) s₀ s) : Local s :=
  h.invariant (I := Local) (fun _ _ _ ht hs => ht.step (stepTo_step hs)) (local_started h₀)

/-! ### What a rover decodes -/

/-- What a rover makes of the bytes it is sent, with a parser of its own. -/
def heard (p : RtcmParser) (bytes : List UInt8) : List (List UInt8) :=
  (feedRtcm p.resetRtcmParser bytes).2

/-- **A link on which only valid frames are sent**: a rover decodes the complete ones. -/
theorem heard_link {accepted : List (List UInt8)} {l : Link UInt8} (hl : WholePackets accepted l)
    (hvalid : ∀ f ∈ accepted, ValidFrame f) (greeting : List UInt8) (hgreeting : ∀ x ∈ greeting, x ≠ 0xD3)
    (p : RtcmParser) : (heard p (greeting ++ l.wire)).Sublist accepted ∧
      ∃ cut, l.wire = (heard p (greeting ++ l.wire)).flatten ++ cut ∧ CutShort cut := by
  obtain ⟨complete, cut, hwire, hsub, hcut⟩ := hl
  have hshort : CutShort cut := by
    intro hne
    obtain ⟨q, n, -, hn, htake, hwith⟩ := hcut hne
    exact ⟨q.data, n, hvalid q.data (hwith.subset (by simp)), hn, htake⟩
  have hheard : heard p (greeting ++ l.wire) = complete := by
    unfold heard
    rw [feedRtcm_decode, hwire]
    exact decode_stream hgreeting (fun f hf => hvalid f (hsub.subset hf)) hshort
  rw [hheard]
  exact ⟨hsub, cut, hwire, hshort⟩

/-- The caster's answer to a rover holds no preamble. -/
theorem greeting_icyResponse : ∀ x ∈ LocalCaster.icyResponse, x ≠ 0xD3 := by
  have hall : LocalCaster.icyResponse.all (fun x => decide (x ≠ 0xD3)) = true := by decide
  intro x hx
  exact of_decide_eq_true (List.all_eq_true.mp hall x hx)

/-- **From the receiver to a rover of the local caster.** In every run of the station, what a rover
decodes of all the bytes sent on its connection, the reply included, is a subsequence of the frames
published, each of them valid; these are disjoint pieces of the receiver's bytes, in order; and what it
cannot decode is less than one frame. -/
theorem local_delivery {k : PushDestination → Constants} {s₀ s : Station} (h₀ : Started s₀)
    (h : Reaches (step k) s₀ s) (fd : ℕ) (p : RtcmParser) :
    let frames := heard p (LocalCaster.icyResponse ++ (s.caster.out.links fd).wire)
    frames.Sublist s.published ∧ (∀ f ∈ frames, ValidFrame f) ∧ Spaced frames s.fed ∧
      ∃ cut, (s.caster.out.links fd).wire = frames.flatten ++ cut ∧ CutShort cut := by
  have hlocal := local_reaches h₀ h
  obtain ⟨held, -, hway⟩ := hlocal.way
  have hsub : s.caster.out.accepted.Sublist s.published := (List.sublist_append_left _ _).trans hway
  have hspec := WholeFrames.caster_wireSpec h₀.caster (caster_reaches h)
  obtain ⟨hheard, hcut⟩ := heard_link (hspec.whole fd)
    (fun f hf => hlocal.reading.valid f (hsub.subset hf)) _ greeting_icyResponse p
  obtain ⟨done, hfed, hspaced⟩ := hlocal.reading.pieces
  refine ⟨hheard.trans hsub, fun f hf => hlocal.reading.valid f ((hheard.trans hsub).subset hf), ?_, hcut⟩
  rw [hfed]
  exact (hspaced.append_gap _).sublist (hheard.trans hsub)

/-- A station after `start`. -/
def sampleStation : Station where
  parser := freshParser
  batch := emptyBatch
  box := resetRtcmState 0
  caster := Caster.start false false
  client := fun _ => WholeFrames.sampleClient

theorem started_sampleStation : Started sampleStation where
  parser := ⟨rfl, rfl⟩
  batch := ⟨rfl, rfl⟩
  box := fun _ => rfl
  caster := ⟨false, false, rfl⟩
  client := fun _ => ⟨true, [77], [112], false, 0, 0, rfl⟩
  clocks := ⟨rfl, fun _ => rfl⟩
  pc := rfl
  record := ⟨rfl, rfl, rfl⟩

/-- A rover is admitted, the receiver sends a frame, and 200 ms later the base task reads again. -/
def sampleFrame : List Input :=
  let worker (e : LocalCaster.Env) : Input := .caster (.work e)
  List.flatten [.replicate 4 (worker {}),
    [worker { incoming := some (1, LocalCaster.requestPrefix) }, worker {}, worker {},
      worker { send := .sent LocalCaster.icyResponse.length }, worker {}, worker {},
      .readDataUart, .base nullFrame], .replicate 12 (.base []), [.tick 200000, .readDataUart]]

/-- The rover is sent the frame. -/
def sampleDelivery : List Input :=
  let worker (e : LocalCaster.Env) : Input := .caster (.work e)
  sampleFrame ++ List.replicate 7 (.base []) ++
    [worker {}, worker {}, worker {}, worker { send := .sent 6 }, worker {}, worker {}]

theorem run_sampleDelivery :
    ((run (step fun _ => WholeFrames.sampleConstants) sampleStation sampleDelivery).map fun s =>
      (s.caster.out.links 0).wire) = some nullFrame := by decide +kernel

theorem local_delivery_sample :
    ∃ s, run (step fun _ => WholeFrames.sampleConstants) sampleStation sampleDelivery = some s ∧
      (s.caster.out.links 0).wire = nullFrame ∧
      let frames := heard freshParser (LocalCaster.icyResponse ++ (s.caster.out.links 0).wire)
      frames.Sublist s.published ∧ (∀ f ∈ frames, ValidFrame f) ∧ Spaced frames s.fed ∧
        ∃ cut, (s.caster.out.links 0).wire = frames.flatten ++ cut ∧ CutShort cut := by
  obtain ⟨s, hs, hwire⟩ := Option.map_eq_some_iff.mp run_sampleDelivery
  exact ⟨s, hs, hwire, local_delivery started_sampleStation ⟨sampleDelivery, hs⟩ 0 freshParser⟩

end GpsBase.Flow.Delivery
