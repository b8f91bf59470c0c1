import GpsBase.Rtcm.Parser

/-! # RTCM framing is exact

Soundness: the bytes read so far are the bytes already dealt with, in which the published frames are
disjoint pieces in order, followed by the bytes collected (`collectAll_sound`).

Completeness: between two frames the automaton has collected nothing or a single preamble byte
(`Idle`). A gap in which no preamble is followed by six zero bits keeps it so (`collectAll_gap`), and
from there a string with the header of a frame of its length is read to its end, published exactly
if its CRC is right (`collectAll_frame`). -/

namespace GpsBase.Rtcm.Framing

open GpsBase.Rtcm.Crc GpsBase.Rtcm.Parser GpsBase.Rtcm.Parser.RtcmParser GpsBase.Lib.Pieces

/-! ### Soundness -/

/-- The bytes collected are the beginning of a frame that is not complete. -/
structure Begun (b : List UInt8) : Prop where
  preamble : 0 < b.length → b.getD 0 0 = 0xD3
  reserved : 1 < b.length → b.getD 1 0 &&& 0xFC = 0
  short : 3 ≤ b.length → b.length < frameSize b

theorem begun_nil : Begun [] := ⟨by simp, by simp, by simp⟩

theorem begun_preamble : Begun [0xD3] := ⟨fun _ => rfl, by simp, by simp⟩

/-- **One byte of the automaton**: the bytes in hand and the new one are dropped, kept from the new
one on, kept, or published as a valid frame. -/
theorem collect_sound {b : List UInt8} (hb : Begun b) (x : UInt8) :
    Begun (collect b x).1 ∧
      (((collect b x).2 = none ∧ ∃ g, b ++ [x] = g ++ (collect b x).1) ∨
        ((collect b x).1 = [] ∧ (collect b x).2 = some (b ++ [x]) ∧ ValidFrame (b ++ [x]))) := by
  have hrestart : Begun (restart x) ∧ ∃ g, b ++ [x] = g ++ restart x := by
    unfold restart
    split_ifs with hx
    · rw [hx]; exact ⟨begun_preamble, b, rfl⟩
    · exact ⟨begun_nil, b ++ [x], by rw [List.append_nil]⟩
  unfold collect
  split_ifs with h0 h1 h2 hcrc
  · exact ⟨hrestart.1, Or.inl ⟨rfl, hrestart.2⟩⟩
  · exact ⟨hrestart.1, Or.inl ⟨rfl, hrestart.2⟩⟩
  · refine ⟨⟨fun _ => ?_, fun _ => ?_, fun h3 => ?_⟩, Or.inl ⟨rfl, [], rfl⟩⟩
    · rw [List.getD_append _ _ _ _ (by omega)]; exact hb.preamble (by omega)
    · rcases Nat.lt_or_ge 1 b.length with hl | hl
      · rw [List.getD_append _ _ _ _ hl]; exact hb.reserved hl
      · have hl1 : b.length = 1 := by omega
        rw [List.getD_append_right _ _ _ _ hl, hl1]
        by_contra hx
        exact h1 ⟨hl1, hx⟩
    · rw [List.length_append, List.length_singleton] at h3 ⊢
      rcases Nat.lt_or_ge b.length 3 with hl | hl
      · exact lt_of_lt_of_le (by omega) (frameSize_bounds (b ++ [x])).1
      · rw [frameSize_append hl]; omega
  · have hl : 3 ≤ b.length := by omega
    refine ⟨begun_nil, Or.inr ⟨rfl, rfl, ⟨?_, ?_, ?_⟩, hcrc⟩⟩
    · rw [List.getD_append _ _ _ _ (by omega)]; exact hb.preamble (by omega)
    · rw [List.getD_append _ _ _ _ (by omega)]; exact hb.reserved (by omega)
    · rw [frameSize_append hl, List.length_append, List.length_singleton]
      have := hb.short hl; omega
  · exact ⟨begun_nil, Or.inl ⟨rfl, b ++ [x], by rw [List.append_nil]⟩⟩

/-- **Soundness of the automaton**, from any bytes in hand. -/
theorem collectAll_sound (s : List UInt8) {b : List UInt8} (hb : Begun b) :
    Begun (collectAll b s).1 ∧ (∀ f ∈ (collectAll b s).2, ValidFrame f) ∧
      ∃ done, b ++ s = done ++ (collectAll b s).1 ∧ Spaced (collectAll b s).2 done := by
  induction s using List.reverseRecOn with
  | nil => exact ⟨hb, by simp [collectAll], [], by simp [collectAll], .gap []⟩
  | append_singleton s x ih =>
    obtain ⟨hb', hval, done, hdone, hsp⟩ := ih
    obtain ⟨hb'', hcase⟩ := collect_sound hb' x
    have hone : collectAll b (s ++ [x]) = ((collect (collectAll b s).1 x).1,
        (collectAll b s).2 ++ (collect (collectAll b s).1 x).2.toList) := by
      rw [collectAll_append]; simp [collectAll]
    rw [hone, ← List.append_assoc, hdone, List.append_assoc]
    rcases hcase with ⟨hout, g, hg⟩ | ⟨hnil, hout, hv⟩
    · rw [hout, Option.toList_none, List.append_nil]
      exact ⟨hb'', hval, done ++ g, by rw [hg, List.append_assoc], hsp.append_gap g⟩
    · rw [hout, Option.toList_some]
      refine ⟨hb'', fun f hf => ?_, done ++ ((collectAll b s).1 ++ [x]), ?_, hsp.append_piece _⟩
      · rcases List.mem_append.mp hf with hf | hf
        · exact hval f hf
        · rw [List.mem_singleton.mp hf]; exact hv
      · rw [hnil, List.append_nil]

/-! ### Completeness -/

/-- Between two frames: nothing in hand, or a preamble byte alone. -/
def Idle (b : List UInt8) : Prop := b = [] ∨ b = [0xD3]

theorem collect_preamble {b : List UInt8} (hb : Idle b) : collect b 0xD3 = ([0xD3], none) := by
  rcases hb with rfl | rfl <;> decide

/-- The bytes of a gap, in a stream that goes on with `after`: no preamble in it is followed by a
byte whose top six bits are zero. -/
def NoSync (g after : List UInt8) : Prop :=
  ∀ u v, g = u ++ 0xD3 :: v → ∀ y, (v ++ after).head? = some y → y &&& 0xFC ≠ 0

theorem NoSync.tail {x : UInt8} {g after : List UInt8} (h : NoSync (x :: g) after) :
    NoSync g after := by
  intro u v hg
  exact h (x :: u) v (by rw [hg]; rfl)

/-- **A gap** publishes nothing and leaves the automaton idle. -/
theorem collectAll_gap (after : List UInt8) :
    ∀ (g b : List UInt8), Idle b → NoSync g after →
      (b = [0xD3] → ∀ y, (g ++ after).head? = some y → y &&& 0xFC ≠ 0) →
      Idle (collectAll b g).1 ∧ (collectAll b g).2 = []
  | [], b, hb, _, _ => ⟨hb, rfl⟩
  | x :: g, b, hb, hg, hx => by
    have hc : collect b x = (restart x, none) := by
      rcases hb with rfl | rfl
      · rfl
      · have hne : x &&& 0xFC ≠ 0 := hx rfl x rfl
        unfold collect
        rw [if_neg (by simp), if_pos ⟨rfl, hne⟩]
    have hidle : Idle (collect b x).1 := by
      rw [hc]; unfold Idle restart; split_ifs with h
      · exact Or.inr (by rw [h])
      · exact Or.inl rfl
    have hnext : (collect b x).1 = [0xD3] → ∀ y, (g ++ after).head? = some y → y &&& 0xFC ≠ 0 := by
      rw [hc]
      intro h
      have hxe : x = 0xD3 := by
        by_contra hne
        simp [restart, hne] at h
      exact hg [] g (by rw [hxe]; rfl)
    obtain ⟨h1, h2⟩ := collectAll_gap after g _ hidle hg.tail hnext
    refine ⟨h1, ?_⟩
    simp only [collectAll]
    rw [h2, hc]; rfl

/-- The bytes after the header are collected up to the last but one. -/
theorem collectAll_body {b : List UInt8} (h3 : 3 ≤ b.length) :
    ∀ r : List UInt8, b.length + r.length < frameSize b → collectAll b r = (b ++ r, []) := by
  intro r
  induction r using List.reverseRecOn with
  | nil => intro _; simp [collectAll]
  | append_singleton r x ih =>
    intro hlt
    rw [List.length_append, List.length_singleton] at hlt
    have hc : collect (b ++ r) x = (b ++ r ++ [x], none) := by
      unfold collect
      rw [if_neg (by rw [List.length_append]; omega), if_neg (by rw [List.length_append]; omega),
        if_pos]
      right
      rw [frameSize_append h3, List.length_append]; omega
    rw [collectAll_append, ih (by omega)]
    simp [collectAll, hc]

/-- **A string with the header of a frame of its length** is read to its end and published exactly
if its CRC is right. -/
theorem collectAll_frame {b f : List UInt8} (hb : Idle b) (hf : FrameShape f) :
    collectAll b f = ([], if CrcOk f then [f] else []) := by
  have hlen := hf.length_ge
  obtain ⟨x0, x1, x2, r, rfl⟩ : ∃ x0 x1 x2 r, f = x0 :: x1 :: x2 :: r := by
    rcases f with _ | ⟨x0, _ | ⟨x1, _ | ⟨x2, r⟩⟩⟩
    · simp at hlen
    · simp at hlen
    · simp at hlen
    · exact ⟨x0, x1, x2, r, rfl⟩
  obtain rfl : x0 = 0xD3 := hf.preamble
  have hx1 : x1 &&& 0xFC = 0 := hf.reserved
  have hr : r ≠ [] := by rintro rfl; simp at hlen
  obtain ⟨r, x, rfl⟩ := (List.eq_nil_or_concat r).resolve_left hr
  rw [List.concat_eq_append] at *
  have hsize : 3 + r.length + 1 = frameSize [0xD3, x1, x2] := by
    have h := hf.size
    rw [show (0xD3 : UInt8) :: x1 :: x2 :: (r ++ [x]) = [0xD3, x1, x2] ++ (r ++ [x]) from rfl,
      frameSize_append (by simp)] at h
    simp only [List.length_append, List.length_cons, List.length_nil] at h
    omega
  have h1 : collect [0xD3] x1 = ([0xD3, x1], none) := by
    unfold collect
    rw [if_neg (by simp), if_neg (fun h => h.2 hx1), if_pos (Or.inl (by simp))]; rfl
  have h2 : collect [0xD3, x1] x2 = ([0xD3, x1, x2], none) := by
    unfold collect
    rw [if_neg (by simp), if_neg (by simp), if_pos (Or.inl (by simp))]; rfl
  have hbody := collectAll_body (b := [0xD3, x1, x2]) (by simp) r (by simp; omega)
  have hlast : collect ([0xD3, x1, x2] ++ r) x = ([],
      if CrcOk ([0xD3, x1, x2] ++ r ++ [x]) then some ([0xD3, x1, x2] ++ r ++ [x]) else none) := by
    unfold collect
    rw [if_neg (by simp), if_neg (by simp), if_neg]
    rw [frameSize_append (by simp)]
    simp only [List.length_append, List.length_cons, List.length_nil]
    omega
  simp only [collectAll, collect_preamble hb, h1, h2]
  rw [collectAll_append, hbody]
  simp only [collectAll, hlast]
  have hassoc : [0xD3, x1, x2] ++ r ++ [x] = 0xD3 :: x1 :: x2 :: (r ++ [x]) := by simp
  rw [hassoc]
  split_ifs <;> rfl

theorem collectAll_valid {b f : List UInt8} (hb : Idle b) (hf : ValidFrame f) :
    collectAll b f = ([], [f]) := by
  rw [collectAll_frame hb hf.toFrameShape, if_pos hf.crc]

/-- Frames with a gap before each, and a gap at the end. -/
def layout : List (List UInt8 × List UInt8) → List UInt8 → List UInt8
  | [], last => last
  | (g, f) :: segs, last => g ++ (f ++ layout segs last)

/-- No preamble of a gap is followed in the stream by a byte whose top six bits are zero. -/
def GapsOk : List (List UInt8 × List UInt8) → List UInt8 → Prop
  | [], last => NoSync last []
  | (g, f) :: segs, last => NoSync g (f ++ layout segs last) ∧ GapsOk segs last

theorem collectAll_layout : ∀ (segs : List (List UInt8 × List UInt8)) (last : List UInt8),
    (∀ q ∈ segs, ValidFrame q.2) → GapsOk segs last →
      (collectAll [] (layout segs last)).2 = segs.map Prod.snd
  | [], last, _, hg => (collectAll_gap [] last [] (Or.inl rfl) hg (by simp)).2
  | (g, f) :: segs, last, hv, hg => by
    obtain ⟨h1, h2⟩ := collectAll_gap _ g [] (Or.inl rfl) hg.1 (by simp)
    have hf := collectAll_valid h1 (hv (g, f) (by simp))
    have ih := collectAll_layout segs last (fun q hq => hv q (by simp [hq])) hg.2
    rw [layout, collectAll_append, h2, collectAll_append, hf]
    simp [ih]

theorem collectAll_flatten : ∀ fs : List (List UInt8), (∀ f ∈ fs, ValidFrame f) →
    collectAll [] fs.flatten = ([], fs)
  | [], _ => rfl
  | f :: fs, hv => by
    rw [List.flatten_cons, collectAll_append, collectAll_valid (Or.inl rfl) (hv f (by simp)),
      collectAll_flatten fs fun q hq => hv q (by simp [hq])]
    rfl

/-! ### The parser -/

/-- **RTCM framing is exact.** From `reset_rtcm_parser`, for every stream, the frames published are
disjoint contiguous pieces of it, in order, each a valid frame, and the write index stays inside the
buffer after every prefix; and a stream of valid frames with gaps that hold no false
synchronisation publishes exactly these frames. -/
theorem rtcm_framing_exact (p : RtcmParser) :
    (∀ s : List UInt8,
      Spaced (feedRtcm p.resetRtcmParser s).2 s ∧
      (∀ f ∈ (feedRtcm p.resetRtcmParser s).2, ValidFrame f) ∧
      ∀ t, t <+: s → (feedRtcm p.resetRtcmParser t).1.rtcmFrameLength < kMaxRtcmFrame) ∧
    ∀ (segs : List (List UInt8 × List UInt8)) (last : List UInt8),
      (∀ q ∈ segs, ValidFrame q.2) → GapsOk segs last →
        (feedRtcm p.resetRtcmParser (layout segs last)).2 = segs.map Prod.snd := by
  refine ⟨fun s => ?_, fun segs last hv hg => ?_⟩
  · obtain ⟨-, hval, done, hdone, hsp⟩ := collectAll_sound s begun_nil
    rw [feedRtcm_eq]
    refine ⟨?_, hval, fun t _ => (feedRtcm_refines (wf_reset p) t).1.length_lt⟩
    have hgap := hsp.append_gap (collectAll [] s).1
    rwa [← hdone] at hgap
  · rw [feedRtcm_eq]
    exact collectAll_layout segs last hv hg

def nullFrame : List UInt8 := [0xD3, 0x00, 0x00, 0x47, 0xEA, 0x4B]

theorem valid_nullFrame : ValidFrame nullFrame :=
  ⟨⟨by decide, by decide, by decide⟩, by decide +kernel⟩

/-- The parser before its first byte. -/
def freshParser : RtcmParser := ⟨List.replicate kMaxRtcmFrame 0, 0, 0, length_unwritten⟩

/-- A gap that ends in a preamble, and two frames back to back. -/
theorem rtcm_framing_exact_nullFrames :
    (feedRtcm freshParser.resetRtcmParser (0x24 :: 0xD3 :: (nullFrame ++ nullFrame))).2 =
      [nullFrame, nullFrame] := by
  refine (rtcm_framing_exact freshParser).2 [([0x24, 0xD3], nullFrame), ([], nullFrame)] [] ?_ ?_
  · intro q hq
    simp only [List.mem_cons, List.not_mem_nil, or_false] at hq
    rcases hq with rfl | rfl <;> exact valid_nullFrame
  · refine ⟨?_, ?_, ?_⟩
    · intro u v huv y hy
      rcases u with _ | ⟨a, _ | ⟨c, u⟩⟩
      · exact absurd (List.cons.inj huv).1 (by decide)
      · obtain ⟨-, rfl⟩ : a = 0x24 ∧ v = [] := by simpa using huv.symm
        obtain rfl : y = 0xD3 := by simpa [nullFrame] using hy.symm
        decide
      · simp at huv
    · intro u v huv
      simp at huv
    · intro u v huv
      simp at huv

end GpsBase.Rtcm.Framing
