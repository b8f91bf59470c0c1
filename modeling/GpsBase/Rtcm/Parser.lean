import GpsBase.Rtcm.Crc
import GpsBase.Lib.Pieces

/-! # The RTCM frame parser

`feedRtcmByte` is `BaseStation::feed_rtcm_byte` on the members `rtcm_frame_`, `rtcm_frame_length_`
and `rtcm_frame_expected_`; the frame it hands to `publish_rtcm_frame`, if any, is its second result.

`collect` is the same automaton without the buffer: its state is the string of bytes collected so
far. The buffer's first `rtcm_frame_length_` bytes are that string (`pending`), and one byte does the
same to both (`feedRtcmByte_refines`), which also keeps the write index inside the buffer. -/

namespace GpsBase.Rtcm.Parser

open GpsBase.Rtcm.Crc GpsBase.Lib.Pieces

/-! ### The code -/

def kMaxRtcmFrame : ℕ := 1200

/-- The parser's members of `BaseStation`. -/
structure RtcmParser where
  rtcmFrame : List UInt8
  rtcmFrameLength : ℕ
  rtcmFrameExpected : ℕ
  size_eq : rtcmFrame.length = kMaxRtcmFrame

theorem length_unwritten : (List.replicate kMaxRtcmFrame (0 : UInt8)).length = kMaxRtcmFrame :=
  List.length_replicate

namespace RtcmParser

def byteAt (p : RtcmParser) (i : ℕ) : UInt8 := p.rtcmFrame.getD i 0

/-- `rtcm_frame_[rtcm_frame_length_++] = byte`. -/
def put (p : RtcmParser) (byte : UInt8) : RtcmParser where
  rtcmFrame := p.rtcmFrame.set p.rtcmFrameLength byte
  rtcmFrameLength := p.rtcmFrameLength + 1
  rtcmFrameExpected := p.rtcmFrameExpected
  size_eq := by rw [List.length_set, p.size_eq]

def resetRtcmParser (p : RtcmParser) : RtcmParser :=
  { p with rtcmFrameLength := 0, rtcmFrameExpected := 0 }

/-- The length field: ten bits of the second and third byte. -/
def payloadLength (b1 b2 : UInt8) : ℕ := ((b1 &&& 0x03).toNat <<< 8) ||| b2.toNat

/-- `BaseStation::feed_rtcm_byte`, with the frame passed to `publish_rtcm_frame`. -/
def feedRtcmByte (p : RtcmParser) (byte : UInt8) : RtcmParser × Option (List UInt8) :=
  if p.rtcmFrameLength = 0 then
    if byte ≠ 0xD3 then (p, none) else (p.put byte, none)
  else
    let p := p.put byte
    if p.rtcmFrameLength = 2 ∧ p.byteAt 1 &&& 0xFC ≠ 0 then
      let p := p.resetRtcmParser
      if byte = 0xD3 then (p.put byte, none) else (p, none)
    else if p.rtcmFrameLength = 3 then
      let p := { p with rtcmFrameExpected := payloadLength (p.byteAt 1) (p.byteAt 2) + 6 }
      if p.rtcmFrameExpected > kMaxRtcmFrame ∨ p.rtcmFrameExpected < 6 then
        (p.resetRtcmParser, none)
      else (p, none)
    else if p.rtcmFrameExpected = 0 ∨ p.rtcmFrameLength < p.rtcmFrameExpected then (p, none)
    else
      let n := p.rtcmFrameExpected
      let actualCrc := crcOfBytes (p.byteAt (n - 3)) (p.byteAt (n - 2)) (p.byteAt (n - 1))
      let expectedCrc := rtcmCrc24q (p.rtcmFrame.take (n - 3))
      if actualCrc = expectedCrc then (p.resetRtcmParser, some (p.rtcmFrame.take n))
      else (p.resetRtcmParser, none)

/-- The bytes of a stream, one at a time, with the frames published. -/
def feedRtcm (p : RtcmParser) : List UInt8 → RtcmParser × List (List UInt8)
  | [] => (p, [])
  | x :: s =>
    ((feedRtcm (feedRtcmByte p x).1 s).1,
      (feedRtcmByte p x).2.toList ++ (feedRtcm (feedRtcmByte p x).1 s).2)

end RtcmParser

open RtcmParser

/-! ### Frames -/

/-- The total length a frame's header announces. -/
def frameSize (f : List UInt8) : ℕ := payloadLength (f.getD 1 0) (f.getD 2 0) + 6

/-- The last three bytes are the CRC of the others. -/
def CrcOk (f : List UInt8) : Prop :=
  crcOfBytes (f.getD (f.length - 3) 0) (f.getD (f.length - 2) 0) (f.getD (f.length - 1) 0) =
    rtcmCrc24q (f.take (f.length - 3))

instance (f : List UInt8) : Decidable (CrcOk f) := by unfold CrcOk; infer_instance

/-- The header is that of a frame of exactly this length: preamble, six zero bits, length field. -/
structure FrameShape (f : List UInt8) : Prop where
  preamble : f.getD 0 0 = 0xD3
  reserved : f.getD 1 0 &&& 0xFC = 0
  size : f.length = frameSize f

/-- **A valid RTCM frame.** -/
structure ValidFrame (f : List UInt8) : Prop extends FrameShape f where
  crc : CrcOk f

theorem payloadLength_lt (b1 b2 : UInt8) : payloadLength b1 b2 < 1024 := by
  have h1 : (b1 &&& 0x03).toNat < 4 := by
    rw [UInt8.toNat_and]
    exact lt_of_le_of_lt Nat.and_le_right (by decide)
  have h2 : b2.toNat < 2 ^ 8 := b2.toNat_lt
  unfold payloadLength
  rw [← Nat.shiftLeft_add_eq_or_of_lt h2, Nat.shiftLeft_eq]
  omega

theorem frameSize_bounds (f : List UInt8) : 6 ≤ frameSize f ∧ frameSize f ≤ 1029 := by
  have := payloadLength_lt (f.getD 1 0) (f.getD 2 0)
  unfold frameSize; omega

theorem frameSize_append {b : List UInt8} (h : 3 ≤ b.length) (t : List UInt8) :
    frameSize (b ++ t) = frameSize b := by
  unfold frameSize
  rw [List.getD_append _ _ _ _ (by omega), List.getD_append _ _ _ _ (by omega)]

theorem FrameShape.length_ge {f : List UInt8} (h : FrameShape f) : 6 ≤ f.length := by
  rw [h.size]; exact (frameSize_bounds f).1

/-! ### The automaton without a buffer -/

/-- The bytes in hand when the search for a frame starts again at `x`. -/
def restart (x : UInt8) : List UInt8 := if x = 0xD3 then [x] else []

/-- One byte after the bytes `b` collected so far. -/
def collect (b : List UInt8) (x : UInt8) : List UInt8 × Option (List UInt8) :=
  if b.length = 0 then (restart x, none)
  else if b.length = 1 ∧ x &&& 0xFC ≠ 0 then (restart x, none)
  else if b.length < 3 ∨ b.length + 1 < frameSize b then (b ++ [x], none)
  else ([], if CrcOk (b ++ [x]) then some (b ++ [x]) else none)

def collectAll (b : List UInt8) : List UInt8 → List UInt8 × List (List UInt8)
  | [] => (b, [])
  | x :: s => ((collectAll (collect b x).1 s).1,
      (collect b x).2.toList ++ (collectAll (collect b x).1 s).2)

theorem collectAll_append (b s t : List UInt8) :
    collectAll b (s ++ t) = ((collectAll (collectAll b s).1 t).1,
      (collectAll b s).2 ++ (collectAll (collectAll b s).1 t).2) := by
  induction s generalizing b with
  | nil => simp [collectAll]
  | cons x s ih => simp [collectAll, ih, List.append_assoc]

/-! ### The buffer refines the automaton -/

/-- The bytes in the buffer that are in use. -/
def pending (p : RtcmParser) : List UInt8 := p.rtcmFrame.take p.rtcmFrameLength

/-- What holds of the parser between two bytes. -/
structure Wf (p : RtcmParser) : Prop where
  short : p.rtcmFrameLength < 3 → p.rtcmFrameExpected = 0
  long : 3 ≤ p.rtcmFrameLength →
    p.rtcmFrameExpected = frameSize (pending p) ∧ p.rtcmFrameLength < p.rtcmFrameExpected

theorem Wf.length_lt {p : RtcmParser} (h : Wf p) : p.rtcmFrameLength < kMaxRtcmFrame := by
  unfold kMaxRtcmFrame
  rcases Nat.lt_or_ge p.rtcmFrameLength 3 with h3 | h3
  · omega
  · have := (frameSize_bounds (pending p)).2
    have := h.long h3
    omega

theorem Wf.length_pending {p : RtcmParser} (h : Wf p) : (pending p).length = p.rtcmFrameLength := by
  have := h.length_lt
  rw [pending, List.length_take, p.size_eq]; omega

theorem wf_reset (p : RtcmParser) : Wf p.resetRtcmParser :=
  ⟨fun _ => rfl, fun h => absurd h (by simp [resetRtcmParser])⟩

@[simp] theorem pending_reset (p : RtcmParser) : pending p.resetRtcmParser = [] := rfl

theorem pending_put {p : RtcmParser} (h : p.rtcmFrameLength < kMaxRtcmFrame) (x : UInt8) :
    pending (p.put x) = pending p ++ [x] := by
  have hl : p.rtcmFrameLength < p.rtcmFrame.length := by rw [p.size_eq]; exact h
  simp only [pending, put]
  rw [List.take_add_one, List.take_set_of_le le_rfl, List.getElem?_set_self hl]
  rfl

theorem byteAt_eq {p : RtcmParser} {i : ℕ} (h : i < p.rtcmFrameLength) :
    p.byteAt i = (pending p).getD i 0 := by
  simp [byteAt, pending, List.getD_eq_getElem?_getD, h]

theorem pending_with_expected (p : RtcmParser) (n : ℕ) :
    pending { p with rtcmFrameExpected := n } = pending p := rfl

section Byte

variable {p : RtcmParser} (h : Wf p) (x : UInt8)
include h

theorem refines_idle (h0 : p.rtcmFrameLength = 0) : Wf (feedRtcmByte p x).1 ∧
    (pending (feedRtcmByte p x).1, (feedRtcmByte p x).2) = collect (pending p) x := by
  have hp0 : pending p = [] := List.eq_nil_of_length_eq_zero (by rw [h.length_pending, h0])
  have hput := pending_put h.length_lt x
  have hc : collect (pending p) x = (restart x, none) := by
    rw [hp0]; rfl
  have hf : feedRtcmByte p x = if x ≠ 0xD3 then (p, none) else (p.put x, none) := by
    unfold feedRtcmByte; rw [if_pos h0]
  rw [hc, hf]
  unfold restart
  by_cases hx : x = 0xD3
  · rw [if_neg (not_not.mpr hx), if_pos hx]
    refine ⟨⟨fun _ => h.short (by omega), fun h3 => absurd h3 ?_⟩, ?_⟩
    · simp only [put]; omega
    · rw [hput, hp0]; rfl
  · rw [if_pos hx, if_neg hx]
    exact ⟨h, by rw [hp0]⟩

/-- The second byte: six zero bits, or the search goes on (with this byte, if it is a preamble). -/
theorem refines_second (h1 : p.rtcmFrameLength = 1) : Wf (feedRtcmByte p x).1 ∧
    (pending (feedRtcmByte p x).1, (feedRtcmByte p x).2) = collect (pending p) x := by
  have hlen := h.length_pending
  have hput := pending_put h.length_lt x
  have hplen : (p.put x).rtcmFrameLength = 2 := congrArg (· + 1) h1
  have hexp : (p.put x).rtcmFrameExpected = 0 := h.short (by omega)
  have hb1 : (p.put x).byteAt 1 = x := by
    rw [byteAt_eq (by omega), hput, List.getD_eq_getElem?_getD,
      List.getElem?_append_right (by omega), hlen, h1]
    rfl
  have hf : feedRtcmByte p x = if x &&& 0xFC ≠ 0 then
      (if x = 0xD3 then ((p.put x).resetRtcmParser.put x, none)
        else ((p.put x).resetRtcmParser, none)) else (p.put x, none) := by
    unfold feedRtcmByte
    rw [if_neg (by omega)]
    simp only [hplen, hb1, hexp, true_and, true_or, if_true, if_neg (show ¬ 2 = 3 by omega)]
  have hc : collect (pending p) x = if x &&& 0xFC ≠ 0 then (restart x, none)
      else (pending p ++ [x], none) := by
    unfold collect
    rw [hlen, h1, if_neg (by omega), if_pos (Or.inl (by omega))]
    simp only [true_and]
  rw [hf, hc]
  unfold restart
  split_ifs with hx hd
  · refine ⟨⟨fun _ => rfl, fun h3 => absurd h3 ?_⟩, ?_⟩
    · simp [put, resetRtcmParser]
    · rw [pending_put (by simp [resetRtcmParser, kMaxRtcmFrame])]; rfl
  · exact ⟨wf_reset _, rfl⟩
  · refine ⟨⟨fun _ => hexp, fun h3 => absurd h3 ?_⟩, ?_⟩
    · simp only []; omega
    · rw [hput]

theorem refines_third (h2 : p.rtcmFrameLength = 2) : Wf (feedRtcmByte p x).1 ∧
    (pending (feedRtcmByte p x).1, (feedRtcmByte p x).2) = collect (pending p) x := by
  have hlen := h.length_pending
  have hput := pending_put h.length_lt x
  have hplen : (p.put x).rtcmFrameLength = 3 := congrArg (· + 1) h2
  have hsize : payloadLength ((p.put x).byteAt 1) ((p.put x).byteAt 2) + 6 =
      frameSize (pending (p.put x)) := by
    rw [byteAt_eq (by omega), byteAt_eq (by omega)]; rfl
  have hb := frameSize_bounds (pending (p.put x))
  have hf : feedRtcmByte p x =
      ({ p.put x with rtcmFrameExpected := frameSize (pending (p.put x)) }, none) := by
    unfold feedRtcmByte
    rw [if_neg (by omega)]
    simp only [hplen, hsize]
    rw [if_neg (by omega), if_pos trivial, if_neg]
    unfold kMaxRtcmFrame; omega
  have hc : collect (pending p) x = (pending p ++ [x], none) := by
    unfold collect
    rw [if_neg (by omega), if_neg (by omega), if_pos (Or.inl (by omega))]
  rw [hf, hc]
  refine ⟨⟨fun h3 => absurd h3 ?_, fun _ => ⟨rfl, ?_⟩⟩, ?_⟩
  · simp only [hplen]; omega
  · simp only [hplen]; omega
  · rw [pending_with_expected, hput]

/-- The bytes after the length field: the last one completes the frame, whose CRC decides. -/
theorem refines_body (h3 : 3 ≤ p.rtcmFrameLength) : Wf (feedRtcmByte p x).1 ∧
    (pending (feedRtcmByte p x).1, (feedRtcmByte p x).2) = collect (pending p) x := by
  have hlen := h.length_pending
  have hput := pending_put h.length_lt x
  have hplen : (p.put x).rtcmFrameLength = p.rtcmFrameLength + 1 := rfl
  obtain ⟨hexp, hlt⟩ := h.long h3
  have hpe : (p.put x).rtcmFrameExpected = frameSize (pending p) := hexp
  have hb := frameSize_bounds (pending p)
  by_cases hmore : p.rtcmFrameLength + 1 < frameSize (pending p)
  · have hf : feedRtcmByte p x = (p.put x, none) := by
      unfold feedRtcmByte
      rw [if_neg (by omega)]
      simp only [hplen, hpe]
      rw [if_neg (by omega), if_neg (by omega), if_pos (Or.inr hmore)]
    have hc : collect (pending p) x = (pending p ++ [x], none) := by
      unfold collect
      rw [if_neg (by omega), if_neg (by omega), if_pos (Or.inr (by omega))]
    rw [hf, hc]
    refine ⟨⟨fun h3 => absurd h3 ?_, fun _ => ⟨?_, ?_⟩⟩, ?_⟩
    · simp only [hplen]; omega
    · rw [hpe, hput, frameSize_append (by omega)]
    · rw [hplen, hpe]; exact hmore
    · rw [hput]
  · -- the buffer now holds exactly the frame
    have hn : frameSize (pending p) = p.rtcmFrameLength + 1 := by omega
    have hfl : (pending p ++ [x]).length = p.rtcmFrameLength + 1 := by simp [hlen]
    have htake : (p.put x).rtcmFrame.take (p.rtcmFrameLength + 1) = pending p ++ [x] := hput
    have hcrc : (crcOfBytes ((p.put x).byteAt (p.rtcmFrameLength + 1 - 3))
        ((p.put x).byteAt (p.rtcmFrameLength + 1 - 2))
        ((p.put x).byteAt (p.rtcmFrameLength + 1 - 1)) =
          rtcmCrc24q ((p.put x).rtcmFrame.take (p.rtcmFrameLength + 1 - 3))) ↔
        CrcOk (pending p ++ [x]) := by
      rw [byteAt_eq (by omega), byteAt_eq (by omega), byteAt_eq (by omega), hput, CrcOk, hfl,
        ← htake, List.take_take, min_eq_left (by omega)]
    have hf : feedRtcmByte p x = ((p.put x).resetRtcmParser,
        if CrcOk (pending p ++ [x]) then some (pending p ++ [x]) else none) := by
      unfold feedRtcmByte
      rw [if_neg (by omega)]
      simp only [hplen, hpe, hn]
      rw [if_neg (by omega), if_neg (by omega), if_neg (by omega)]
      by_cases hok : CrcOk (pending p ++ [x])
      · rw [if_pos (hcrc.mpr hok), if_pos hok, htake]
      · rw [if_neg (fun hc => hok (hcrc.mp hc)), if_neg hok]
    have hc : collect (pending p) x =
        ([], if CrcOk (pending p ++ [x]) then some (pending p ++ [x]) else none) := by
      unfold collect
      rw [if_neg (by omega), if_neg (by omega), if_neg (by omega)]
    rw [hf, hc]
    exact ⟨wf_reset _, rfl⟩

/-- **One byte does the same to the buffer and to the automaton.** -/
theorem feedRtcmByte_refines : Wf (feedRtcmByte p x).1 ∧
    (pending (feedRtcmByte p x).1, (feedRtcmByte p x).2) = collect (pending p) x := by
  rcases Nat.lt_or_ge p.rtcmFrameLength 3 with h3 | h3
  · rcases (by omega : p.rtcmFrameLength = 0 ∨ p.rtcmFrameLength = 1 ∨ p.rtcmFrameLength = 2)
      with h0 | h1 | h2
    · exact refines_idle h x h0
    · exact refines_second h x h1
    · exact refines_third h x h2
  · exact refines_body h x h3

end Byte

theorem feedRtcm_refines {p : RtcmParser} (h : Wf p) (s : List UInt8) :
    Wf (feedRtcm p s).1 ∧ (pending (feedRtcm p s).1, (feedRtcm p s).2) = collectAll (pending p) s := by
  induction s generalizing p with
  | nil => exact ⟨h, rfl⟩
  | cons x s ih =>
    obtain ⟨h1, h2⟩ := feedRtcmByte_refines h x
    obtain ⟨h3, h4⟩ := ih h1
    refine ⟨h3, ?_⟩
    simp only [feedRtcm, collectAll, ← h2, ← h4]

theorem feedRtcm_eq (p : RtcmParser) (s : List UInt8) :
    (feedRtcm p.resetRtcmParser s).2 = (collectAll [] s).2 := by
  have := (feedRtcm_refines (wf_reset p) s).2
  rw [pending_reset] at this
  exact congrArg Prod.snd this

end GpsBase.Rtcm.Parser
