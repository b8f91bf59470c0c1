import GpsBase.Rtcm.Framing

/-! # Damaged RTCM frames

A string of frame length passes the CRC check exactly if its polynomial is a multiple of the
generator (`crcOk_iff_dvd`). An error pattern on a valid frame therefore goes undetected exactly if
the pattern itself is a multiple, which a burst of at most 24 bits and a pattern of odd weight are
not. The header is untouched, so the parser reads the damaged string to its end, drops it, and is
idle before the next frame. -/

namespace GpsBase.Rtcm.Damage

open Polynomial GpsBase.Lib.BitPoly GpsBase.Rtcm.Crc GpsBase.Rtcm.Parser
open GpsBase.Rtcm.Parser.RtcmParser GpsBase.Rtcm.Framing

/-- The flipped bits lie within 24 consecutive bits. -/
def Burst (e : List UInt8) : Prop := ∃ s, ∀ k, bitAt e k = true → s ≤ k ∧ k < s + 24

/-- The number of flipped bits is odd. -/
def OddWeight (e : List UInt8) : Prop :=
  Odd ((Finset.range (8 * e.length)).filter (bitAt e ·)).card

/-- **An error pattern** on the payload and CRC of a frame of length `n`: nonzero, header untouched,
and a burst or of odd weight. -/
structure ErrorPattern (n : ℕ) (e : List UInt8) : Prop where
  length_eq : e.length = n
  header : ∀ i < 3, e.getD i 0 = 0
  nonzero : ∃ k, bitAt e k = true
  detectable : Burst e ∨ OddWeight e

theorem crcOk_iff_dvd {f : List UInt8} (h : 3 ≤ f.length) :
    CrcOk f ↔ crcPoly ∣ ofBytes f := by
  obtain ⟨m, a, b, c, rfl⟩ : ∃ m a b c, f = m ++ [a, b, c] := by
    have hd : (f.drop (f.length - 3)).length = 3 := by rw [List.length_drop]; omega
    obtain ⟨a, b, c, habc⟩ := List.length_eq_three.mp hd
    exact ⟨f.take (f.length - 3), a, b, c, by rw [← habc, List.take_append_drop]⟩
  have hl : (m ++ [a, b, c]).length = m.length + 3 := by simp
  have hget : ∀ i, (m ++ [a, b, c]).getD (m.length + i) 0 = [a, b, c].getD i 0 := fun i => by
    rw [List.getD_append_right _ _ _ _ (by omega), Nat.add_sub_cancel_left]
  rw [← crc_eq_iff_dvd, CrcOk, hl, show m.length + 3 - 3 = m.length + 0 by omega,
    show m.length + 3 - 2 = m.length + 1 by omega, show m.length + 3 - 1 = m.length + 2 by omega,
    hget, hget, hget, Nat.add_zero, List.take_left]
  rfl

/-! ### No detectable pattern is a multiple of the generator -/

theorem ofBytes_ne_zero {e : List UInt8} (h : ∃ k, bitAt e k = true) : ofBytes e ≠ 0 := by
  obtain ⟨k, hk⟩ := h
  intro h0
  rw [(ofBytes_eq_zero_iff e).mp h0 k] at hk
  cases hk

theorem not_dvd_burst {e : List UInt8} (h : ∃ k, bitAt e k = true) (hb : Burst e) :
    ¬ crcPoly ∣ ofBytes e := by
  obtain ⟨s, hs⟩ := hb
  refine not_dvd_of_burst coeff_zero_crcPoly (a := 8 * e.length - s - 24) (n := 24)
    (by rw [degree_crcPoly]; rfl) (ofBytes_ne_zero h) fun i hi => ?_
  rw [coeff_ofBytes] at hi
  split_ifs at hi with hlt
  · have hbit : bitAt e (8 * e.length - 1 - i) = true := by
      by_contra hf
      rw [Bool.not_eq_true] at hf
      exact hi (by rw [hf]; rfl)
    have := hs _ hbit
    omega
  · exact absurd rfl hi

theorem not_dvd_odd {e : List UInt8} (ho : OddWeight e) : ¬ crcPoly ∣ ofBytes e := by
  refine not_dvd_of_odd eval_one_crcPoly ?_
  rw [eval_one_ofBytes, ZMod.natCast_eq_one_iff_odd]
  exact ho

theorem not_dvd_of_pattern {n : ℕ} {e : List UInt8} (h : ErrorPattern n e) :
    ¬ crcPoly ∣ ofBytes e := by
  rcases h.detectable with hb | ho
  · exact not_dvd_burst h.nonzero hb
  · exact not_dvd_odd ho

/-! ### The damaged frame -/

theorem getD_xorBytes {f e : List UInt8} (h : f.length = e.length) {i : ℕ}
    (he : e.getD i 0 = 0) : (xorBytes f e).getD i 0 = f.getD i 0 := by
  rcases Nat.lt_or_ge i f.length with hi | hi
  · rw [List.getD_eq_getElem _ _ (by rw [length_xorBytes h]; exact hi)]
    rw [List.getD_eq_getElem _ _ (by omega)] at he
    simp only [xorBytes, List.getElem_zipWith, he]
    rw [List.getD_eq_getElem _ _ hi, UInt8.xor_zero]
  · rw [List.getD_eq_default _ _ (by rw [length_xorBytes h]; exact hi),
      List.getD_eq_default _ _ hi]

/-- The damaged string still has the header of a frame of its length. -/
theorem frameShape_xorBytes {f e : List UInt8} (hf : FrameShape f) (he : ErrorPattern f.length e) :
    FrameShape (xorBytes f e) := by
  have hl : f.length = e.length := he.length_eq.symm
  have hg : ∀ i < 3, (xorBytes f e).getD i 0 = f.getD i 0 := fun i hi =>
    getD_xorBytes hl (he.header i hi)
  refine ⟨?_, ?_, ?_⟩
  · rw [hg 0 (by omega)]; exact hf.preamble
  · rw [hg 1 (by omega)]; exact hf.reserved
  · rw [length_xorBytes hl, frameSize, hg 1 (by omega), hg 2 (by omega)]
    exact hf.size

theorem not_crcOk_xorBytes {f e : List UInt8} (hf : ValidFrame f) (he : ErrorPattern f.length e) :
    ¬ CrcOk (xorBytes f e) := by
  have hl : f.length = e.length := he.length_eq.symm
  have h6 := hf.toFrameShape.length_ge
  intro hc
  rw [crcOk_iff_dvd (by rw [length_xorBytes hl]; omega), ofBytes_xorBytes hl] at hc
  exact not_dvd_of_pattern he ((dvd_add_right ((crcOk_iff_dvd (by omega)).mp hf.crc)).mp hc)

/-- **Corrupted frames are dropped and cost nothing else.** The CRC is the remainder of the message
times `X ^ 24`; and a valid frame among valid frames, damaged by a short burst or an odd number of
flips behind its header, is the only one not published. -/
theorem damaged_frame_dropped :
    (∀ m : List UInt8, ofNat (rtcmCrc24q m).toNat = (ofBytes m * X ^ 24) %ₘ
      (X ^ 24 + X ^ 23 + X ^ 18 + X ^ 17 + X ^ 14 + X ^ 11 + X ^ 10 + X ^ 7 + X ^ 6 + X ^ 5 +
        X ^ 4 + X ^ 3 + X + 1)) ∧
    ∀ (p : RtcmParser) (pre post : List (List UInt8)) (f e : List UInt8),
      (∀ q ∈ pre, ValidFrame q) → (∀ q ∈ post, ValidFrame q) → ValidFrame f →
      ErrorPattern f.length e →
        (feedRtcm p.resetRtcmParser (pre.flatten ++ (xorBytes f e ++ post.flatten))).2 =
          pre ++ post := by
  refine ⟨ofNat_rtcmCrc24q, fun p pre post f e hpre hpost hf he => ?_⟩
  have hbad := collectAll_frame (Or.inl rfl) (frameShape_xorBytes hf.toFrameShape he)
  rw [if_neg (not_crcOk_xorBytes hf he)] at hbad
  rw [feedRtcm_eq, collectAll_append, collectAll_flatten pre hpre, collectAll_append, hbad,
    collectAll_flatten post hpost]
  rfl

/-- One flipped bit in the CRC of the first of two frames. -/
theorem damaged_frame_dropped_nullFrame :
    (feedRtcm freshParser.resetRtcmParser
      ([].flatten ++ (xorBytes nullFrame [0, 0, 0, 0, 0, 1] ++ [nullFrame].flatten))).2 =
        [] ++ [nullFrame] := by
  refine damaged_frame_dropped.2 freshParser [] [nullFrame] nullFrame [0, 0, 0, 0, 0, 1]
    (by simp) (by simpa using valid_nullFrame) valid_nullFrame ⟨rfl, ?_, ⟨47, by decide⟩, ?_⟩
  · decide
  · refine Or.inl ⟨47, fun k hk => ?_⟩
    rcases Nat.lt_or_ge k 48 with h | h
    · have : ∀ k < 48, bitAt [0, 0, 0, 0, 0, 1] k = true → 47 ≤ k := by decide
      exact ⟨this k h hk, by omega⟩
    · rw [bitAt_of_le (by simpa using h)] at hk
      cases hk

end GpsBase.Rtcm.Damage
