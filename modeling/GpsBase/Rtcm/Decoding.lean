import GpsBase.Rtcm.Framing

/-! # What is decoded of a stream that is cut short

A receiver of corrections is a parser of the same frames. Of a stream of whole frames it decodes these
frames; a greeting without a preamble in front of them, and a frame cut short behind them, add
nothing. -/

namespace GpsBase.Rtcm.Decoding

open GpsBase.Lib.Pieces GpsBase.Rtcm.Parser GpsBase.Rtcm.Framing

/-- The frames that a parser publishes of a stream. -/
def decode (s : List UInt8) : List (List UInt8) := (collectAll [] s).2

/-- Bytes of a frame that has more. -/
def CutShort (cut : List UInt8) : Prop :=
  cut ≠ [] → ∃ f n, ValidFrame f ∧ n < f.length ∧ cut = f.take n

theorem collectAll_greeting : ∀ greeting : List UInt8, (∀ x ∈ greeting, x ≠ 0xD3) →
    collectAll [] greeting = ([], [])
  | [], _ => rfl
  | x :: greeting, h => by
    have hfirst : collect [] x = ([], none) := by
      simp [collect, restart, h x List.mem_cons_self]
    have hrest := collectAll_greeting greeting fun y hy => h y (List.mem_cons_of_mem x hy)
    simp only [collectAll, hfirst, hrest]
    rfl

/-- **A frame cut short publishes nothing.** -/
theorem decode_take {f : List UInt8} (hf : ValidFrame f) {n : ℕ} (hn : n < f.length) :
    decode (f.take n) = [] := by
  have hall : (collectAll [] (f.take n ++ f.drop n)).2 = [f] := by
    rw [List.take_append_drop, collectAll_valid (Or.inl rfl) hf]
  rw [collectAll_append] at hall
  refine List.eq_nil_iff_forall_not_mem.mpr fun g hg => ?_
  have hgf : g = f := by
    have hmem : g ∈ [f] := by
      rw [← hall]
      exact List.mem_append_left _ hg
    exact List.mem_singleton.mp hmem
  obtain ⟨-, -, done, hdone, hspaced⟩ := collectAll_sound (f.take n) begun_nil
  -- a frame published is a piece of what was read, which is too short for it
  have hpiece := (hspaced.append_gap (collectAll [] (f.take n)).1).isInfix hg
  rw [← hdone, hgf] at hpiece
  have hlength := hpiece.length_le
  rw [List.nil_append, List.length_take] at hlength
  omega

/-- **Whole frames are decoded, and what is cut short is not.** -/
theorem decode_stream {greeting : List UInt8} (hgreeting : ∀ x ∈ greeting, x ≠ 0xD3)
    {frames : List (List UInt8)} (hframes : ∀ f ∈ frames, ValidFrame f) {cut : List UInt8}
    (hcut : CutShort cut) : decode (greeting ++ (frames.flatten ++ cut)) = frames := by
  have hlast : (collectAll [] cut).2 = [] := by
    rcases eq_or_ne cut [] with rfl | hne
    · rfl
    · obtain ⟨f, n, hf, hn, rfl⟩ := hcut hne
      exact decode_take hf hn
  unfold decode
  rw [collectAll_append, collectAll_greeting greeting hgreeting, collectAll_append,
    collectAll_flatten frames hframes, hlast]
  simp

theorem feedRtcm_decode (p : RtcmParser) (s : List UInt8) :
    (p.resetRtcmParser.feedRtcm s).2 = decode s := feedRtcm_eq p s

end GpsBase.Rtcm.Decoding
