import GpsBase.Lib.BitPoly
import Mathlib.Data.Nat.Bitwise

/-! # The CRC-24Q of an RTCM frame

`rtcmCrc24q` is the bitwise loop of `BaseStation::rtcm_crc24q`. One turn of its inner loop multiplies
the register by `X` modulo `crcPoly` (`crcBit_spec`), one byte multiplies it by `X ^ 8` and adds the
byte at degree `24` (`crcByte_spec`), so the whole loop leaves the remainder of `m(X) * X ^ 24`
(`ofNat_rtcmCrc24q`). A string followed by its own CRC is therefore exactly a multiple of `crcPoly`
(`dvd_append_crc_iff`), and `crcPoly` divides no short burst and no odd pattern. -/

namespace GpsBase.Rtcm.Crc

open Polynomial GpsBase.Lib.BitPoly

/-! ### The code -/

/-- One turn of the inner loop. -/
def crcBit (crc : UInt32) : UInt32 :=
  if (crc <<< 1) &&& 0x1000000 ≠ 0 then (crc <<< 1) ^^^ 0x1864CFB else crc <<< 1

/-- One turn of the outer loop. -/
def crcByte (crc : UInt32) (b : UInt8) : UInt32 :=
  crcBit^[8] (crc ^^^ (b.toUInt32 <<< 16))

def rtcmCrc24q (data : List UInt8) : UInt32 := data.foldl crcByte 0 &&& 0xFFFFFF

/-! ### The generator -/

/-- The generator of CRC-24Q. -/
noncomputable def crcPoly : (ZMod 2)[X] :=
  X ^ 24 + X ^ 23 + X ^ 18 + X ^ 17 + X ^ 14 + X ^ 11 + X ^ 10 + X ^ 7 + X ^ 6 + X ^ 5 + X ^ 4 +
    X ^ 3 + X + 1

theorem ofNat_generator : ofNat 0x1864CFB = crcPoly := by
  have h : (0x1864CFB : ℕ) = 2 ^ 24 ^^^ 2 ^ 23 ^^^ 2 ^ 18 ^^^ 2 ^ 17 ^^^ 2 ^ 14 ^^^ 2 ^ 11 ^^^
      2 ^ 10 ^^^ 2 ^ 7 ^^^ 2 ^ 6 ^^^ 2 ^ 5 ^^^ 2 ^ 4 ^^^ 2 ^ 3 ^^^ 2 ^ 1 ^^^ 2 ^ 0 := by decide
  rw [h]
  rw [crcPoly, ← pow_zero X]
  conv_rhs => enter [1, 2]; rw [← pow_one X]
  simp only [ofNat_xor, ofNat_two_pow]

theorem crcPoly_eq : crcPoly = X ^ 24 + ofNat 0x864CFB := by
  have h : (0x1864CFB : ℕ) = 2 ^ 24 ^^^ 0x864CFB := by decide
  rw [← ofNat_generator, h, ofNat_xor, ofNat_two_pow]

theorem monic_crcPoly : crcPoly.Monic := by
  rw [crcPoly_eq]
  exact monic_X_pow_add (degree_ofNat_lt (by decide))

theorem degree_crcPoly : crcPoly.degree = 24 := by
  rw [crcPoly_eq, degree_add_eq_left_of_degree_lt, degree_X_pow]
  · rfl
  · rw [degree_X_pow]; exact degree_ofNat_lt (by decide)

theorem coeff_zero_crcPoly : crcPoly.coeff 0 = 1 := by
  rw [← ofNat_generator, coeff_ofNat]; rfl

/-- The generator has an even number of terms, so `X + 1` divides it. -/
theorem eval_one_crcPoly : crcPoly.eval 1 = 0 := by
  simp only [crcPoly, eval_add, eval_pow, eval_X, eval_one, one_pow]
  decide

/-! ### The loop computes the remainder -/

theorem toNat_shift {c : UInt32} (hc : c.toNat < 2 ^ 24) : (c <<< 1).toNat = c.toNat <<< 1 := by
  rw [UInt32.toNat_shiftLeft, Nat.mod_eq_of_lt]
  · rfl
  · simp only [Nat.shiftLeft_eq]
    have : (1 : UInt32).toNat % 32 = 1 := rfl
    rw [this]; omega

theorem toNat_byte_shift (b : UInt8) {k : ℕ} {s : UInt32} (hs : s.toNat % 32 = k) (hk : k ≤ 16) :
    (b.toUInt32 <<< s).toNat = b.toNat <<< k := by
  have hb : b.toNat < 2 ^ 8 := b.toNat_lt
  have hle : b.toNat * 2 ^ k ≤ b.toNat * 2 ^ 16 :=
    Nat.mul_le_mul_left _ (Nat.pow_le_pow_right (by omega) hk)
  rw [UInt32.toNat_shiftLeft, UInt8.toNat_toUInt32, hs, Nat.mod_eq_of_lt]
  rw [Nat.shiftLeft_eq]; omega

theorem mask_ne_zero (c : UInt32) : c &&& 0x1000000 ≠ 0 ↔ c.toNat.testBit 24 = true := by
  rw [Ne, ← UInt32.toNat_inj, UInt32.toNat_and]
  have h : (0x1000000 : UInt32).toNat = 2 ^ 24 := rfl
  rw [h, Nat.and_two_pow]
  cases hb : c.toNat.testBit 24 <;> simp

theorem lt_two_pow_of_testBit {n k : ℕ} (h : n < 2 ^ (k + 1)) (hk : n.testBit k = false) :
    n < 2 ^ k := by
  refine Nat.lt_pow_two_of_testBit n fun i hi => ?_
  rcases Nat.eq_or_lt_of_le hi with rfl | hi
  · exact hk
  · exact Nat.testBit_lt_two_pow (lt_of_lt_of_le h (Nat.pow_le_pow_right (by omega) hi))

/-- **One turn of the inner loop** keeps the register below `2 ^ 24` and multiplies it by `X`. -/
theorem crcBit_spec {c : UInt32} (hc : c.toNat < 2 ^ 24) :
    (crcBit c).toNat < 2 ^ 24 ∧ crcPoly ∣ ofNat (crcBit c).toNat - ofNat c.toNat * X := by
  have hs := toNat_shift hc
  have hlt : c.toNat <<< 1 < 2 ^ 25 := by rw [Nat.shiftLeft_eq]; omega
  have hX : ofNat (c.toNat <<< 1) = ofNat c.toNat * X := by rw [ofNat_shiftLeft, pow_one]
  unfold crcBit
  split_ifs with h
  · rw [mask_ne_zero, hs] at h
    have hg : (0x1864CFB : UInt32).toNat = 0x1864CFB := rfl
    rw [UInt32.toNat_xor, hs, hg]
    constructor
    · refine lt_two_pow_of_testBit (Nat.xor_lt_two_pow hlt (by decide)) ?_
      rw [Nat.testBit_xor, h]; decide
    · rw [ofNat_xor, ofNat_generator, hX, add_sub_cancel_left]
  · rw [mask_ne_zero, Bool.not_eq_true, hs] at h
    rw [hs]
    refine ⟨lt_two_pow_of_testBit hlt h, ?_⟩
    rw [hX, sub_self]; exact dvd_zero _

theorem crcBit_iterate_spec (n : ℕ) {c : UInt32} (hc : c.toNat < 2 ^ 24) :
    (crcBit^[n] c).toNat < 2 ^ 24 ∧
      crcPoly ∣ ofNat (crcBit^[n] c).toNat - ofNat c.toNat * X ^ n := by
  induction n with
  | zero => exact ⟨hc, by simp⟩
  | succ n ih =>
    obtain ⟨h1, h2⟩ := crcBit_spec ih.1
    rw [Function.iterate_succ_apply']
    refine ⟨h1, ?_⟩
    have := dvd_add h2 (ih.2.mul_right X)
    convert this using 1
    ring

/-- **One byte**: the register moves up by eight degrees and the byte enters at degree `24`. -/
theorem crcByte_spec {c : UInt32} (hc : c.toNat < 2 ^ 24) (b : UInt8) :
    (crcByte c b).toNat < 2 ^ 24 ∧
      crcPoly ∣ ofNat (crcByte c b).toNat - (ofNat c.toNat * X ^ 8 + ofNat b.toNat * X ^ 24) := by
  have hb : b.toNat < 2 ^ 8 := b.toNat_lt
  have hx : (c ^^^ (b.toUInt32 <<< 16)).toNat = c.toNat ^^^ (b.toNat <<< 16) := by
    rw [UInt32.toNat_xor, toNat_byte_shift b (k := 16) rfl le_rfl]
  have hlt : (c ^^^ (b.toUInt32 <<< 16)).toNat < 2 ^ 24 := by
    rw [hx]
    exact Nat.xor_lt_two_pow hc (by rw [Nat.shiftLeft_eq]; omega)
  obtain ⟨h1, h2⟩ := crcBit_iterate_spec 8 hlt
  refine ⟨h1, ?_⟩
  convert h2 using 1
  rw [hx, ofNat_xor, ofNat_shiftLeft]
  change _ = ofNat (crcByte c b).toNat - _
  ring

theorem crc_foldl_spec (m : List UInt8) :
    (m.foldl crcByte 0).toNat < 2 ^ 24 ∧
      crcPoly ∣ ofNat (m.foldl crcByte 0).toNat - ofBytes m * X ^ 24 := by
  induction m using List.reverseRecOn with
  | nil => exact ⟨by decide, by simp⟩
  | append_singleton m b ih =>
    rw [List.foldl_append, List.foldl_cons, List.foldl_nil, ofBytes_concat]
    obtain ⟨h1, h2⟩ := crcByte_spec ih.1 b
    refine ⟨h1, ?_⟩
    have := dvd_add h2 (ih.2.mul_right (X ^ 8))
    convert this using 1
    ring

theorem toNat_rtcmCrc24q (m : List UInt8) :
    (rtcmCrc24q m).toNat = (m.foldl crcByte 0).toNat := by
  have h : (0xFFFFFF : UInt32).toNat = 2 ^ 24 - 1 := rfl
  rw [rtcmCrc24q, UInt32.toNat_and, h, Nat.and_two_pow_sub_one_eq_mod,
    Nat.mod_eq_of_lt (crc_foldl_spec m).1]

theorem rtcmCrc24q_lt (m : List UInt8) : (rtcmCrc24q m).toNat < 2 ^ 24 := by
  rw [toNat_rtcmCrc24q]; exact (crc_foldl_spec m).1

theorem dvd_rtcmCrc24q_sub (m : List UInt8) :
    crcPoly ∣ ofNat (rtcmCrc24q m).toNat - ofBytes m * X ^ 24 := by
  rw [toNat_rtcmCrc24q]; exact (crc_foldl_spec m).2

/-- **The CRC is the remainder** of the message, shifted by 24, modulo the generator. -/
theorem ofNat_rtcmCrc24q (m : List UInt8) :
    ofNat (rtcmCrc24q m).toNat = (ofBytes m * X ^ 24) %ₘ crcPoly := by
  obtain ⟨q, hq⟩ := dvd_rtcmCrc24q_sub m
  refine ((div_modByMonic_unique (-q) _ monic_crcPoly ⟨?_, ?_⟩).2).symm
  · rw [mul_neg, ← hq]; ring
  · rw [degree_crcPoly]; exact degree_ofNat_lt (rtcmCrc24q_lt m)

/-! ### Checking a received CRC -/

/-- The three CRC bytes as a number, as the parser assembles them. -/
def crcOfBytes (a b c : UInt8) : UInt32 := (a.toUInt32 <<< 16) ||| (b.toUInt32 <<< 8) ||| c.toUInt32

theorem toNat_crcOfBytes (a b c : UInt8) :
    (crcOfBytes a b c).toNat = a.toNat * 2 ^ 16 + b.toNat * 2 ^ 8 + c.toNat := by
  have hb : b.toNat < 2 ^ 8 := b.toNat_lt
  have hc : c.toNat < 2 ^ 8 := c.toNat_lt
  rw [crcOfBytes, UInt32.toNat_or, UInt32.toNat_or, toNat_byte_shift a (k := 16) rfl le_rfl,
    toNat_byte_shift b (k := 8) rfl (by omega), UInt8.toNat_toUInt32, Nat.or_assoc,
    ← Nat.shiftLeft_add_eq_or_of_lt hc, ← Nat.shiftLeft_add_eq_or_of_lt]
  · simp only [Nat.shiftLeft_eq]; omega
  · rw [Nat.shiftLeft_eq]; omega

theorem ofNat_crcOfBytes (a b c : UInt8) :
    ofNat (crcOfBytes a b c).toNat = ofBytes [a, b, c] := by
  have hb : b.toNat < 2 ^ 8 := b.toNat_lt
  have hc : c.toNat < 2 ^ 8 := c.toNat_lt
  have h : (crcOfBytes a b c).toNat = a.toNat <<< 16 ^^^ (b.toNat <<< 8 ^^^ c.toNat) := by
    rw [shiftLeft_xor_of_lt b.toNat hc, shiftLeft_xor_of_lt a.toNat, toNat_crcOfBytes]
    · simp only [Nat.shiftLeft_eq]; omega
    · rw [Nat.shiftLeft_eq]; omega
  rw [h, ofNat_xor, ofNat_xor, ofNat_shiftLeft, ofNat_shiftLeft]
  simp only [ofBytes, List.foldl_cons, List.foldl_nil]
  ring

/-- **A string followed by three bytes passes the check iff the whole is a multiple of the
generator.** -/
theorem crc_eq_iff_dvd (m : List UInt8) (a b c : UInt8) :
    crcOfBytes a b c = rtcmCrc24q m ↔ crcPoly ∣ ofBytes (m ++ [a, b, c]) := by
  have hsum : ofBytes (m ++ [a, b, c]) =
      ofNat (crcOfBytes a b c).toNat + ofNat (rtcmCrc24q m).toNat -
        (ofNat (rtcmCrc24q m).toNat - ofBytes m * X ^ 24) := by
    rw [ofBytes_append, ofNat_crcOfBytes]
    simp only [List.length_cons, List.length_nil]
    ring
  rw [hsum, dvd_sub_left (dvd_rtcmCrc24q_sub m), ← ofNat_xor]
  constructor
  · intro h
    rw [h, Nat.xor_self, ofNat_zero]
    exact dvd_zero _
  · intro h
    have hlt : (crcOfBytes a b c).toNat ^^^ (rtcmCrc24q m).toNat < 2 ^ 24 := by
      refine Nat.xor_lt_two_pow ?_ (rtcmCrc24q_lt m)
      have ha : a.toNat < 2 ^ 8 := a.toNat_lt
      have hb : b.toNat < 2 ^ 8 := b.toNat_lt
      have hc : c.toNat < 2 ^ 8 := c.toNat_lt
      rw [toNat_crcOfBytes]; omega
    have hz := eq_zero_of_dvd_of_degree_lt h (by rw [degree_crcPoly]; exact degree_ofNat_lt hlt)
    rw [ofNat_eq_zero, Nat.xor_eq_zero_iff] at hz
    exact UInt32.toNat_inj.mp hz

end GpsBase.Rtcm.Crc
