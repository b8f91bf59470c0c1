import Mathlib.Algebra.Polynomial.Div
import Mathlib.Algebra.Polynomial.Eval.Degree
import Mathlib.Algebra.CharP.Two
import Mathlib.Data.ZMod.Basic
import Mathlib.Tactic

/-! # Bit strings as polynomials over `GF(2)`

A natural number is read as the polynomial whose coefficients are its bits (`ofNat`), a byte string
as the polynomial of its bits, most significant bit of the first byte first (`ofBytes`). Exclusive or
is addition and a left shift is multiplication by a power of `X`.

The second half is about divisors of such polynomials: a polynomial with a nonzero constant term
divides no nonzero burst shorter than its degree (`not_dvd_of_burst`), and one that vanishes at `1`
divides no polynomial with an odd number of terms (`not_dvd_of_odd`). -/

namespace GpsBase.Lib.BitPoly

open Polynomial

/-- A bit as an element of `GF(2)`. -/
def bit (b : Bool) : ZMod 2 := if b then 1 else 0

@[simp] theorem bit_true : bit true = 1 := rfl

@[simp] theorem bit_false : bit false = 0 := rfl

theorem bit_xor (a b : Bool) : bit (a ^^ b) = bit a + bit b := by
  cases a <;> cases b <;> decide

theorem bit_eq_zero {b : Bool} : bit b = 0 ↔ b = false := by cases b <;> decide

/-! ### Numbers -/

/-- The polynomial whose coefficients are the bits of `n`. -/
noncomputable def ofNat (n : ℕ) : (ZMod 2)[X] :=
  ∑ i ∈ Finset.range n, C (bit (n.testBit i)) * X ^ i

theorem testBit_of_le {n i : ℕ} (h : n ≤ i) : n.testBit i = false :=
  Nat.testBit_lt_two_pow (lt_of_le_of_lt h Nat.lt_two_pow_self)

@[simp] theorem coeff_ofNat (n i : ℕ) : (ofNat n).coeff i = bit (n.testBit i) := by
  simp only [ofNat, finsetSum_coeff, coeff_C_mul_X_pow]
  rw [Finset.sum_ite_eq (Finset.range n) i]
  split_ifs with h
  · rfl
  · rw [testBit_of_le (by simpa using h)]; rfl

@[simp] theorem ofNat_zero : ofNat 0 = 0 := by simp [ofNat]

theorem ofNat_xor (a b : ℕ) : ofNat (a ^^^ b) = ofNat a + ofNat b := by
  ext i
  simp [Nat.testBit_xor, bit_xor]

theorem ofNat_shiftLeft (a k : ℕ) : ofNat (a <<< k) = ofNat a * X ^ k := by
  ext i
  simp only [coeff_ofNat, coeff_mul_X_pow', Nat.testBit_shiftLeft]
  by_cases h : k ≤ i
  · simp [h]
  · simp [h]

theorem shiftLeft_xor_of_lt (a : ℕ) {b k : ℕ} (h : b < 2 ^ k) : a <<< k ^^^ b = a <<< k + b := by
  rw [Nat.shiftLeft_add_eq_or_of_lt h]
  refine Nat.eq_of_testBit_eq fun i => ?_
  rw [Nat.testBit_xor, Nat.testBit_or, Nat.testBit_shiftLeft]
  by_cases hi : k ≤ i
  · rw [Nat.testBit_lt_two_pow (lt_of_lt_of_le h (Nat.pow_le_pow_right (by omega) hi))]
    simp
  · simp [hi]

theorem ofNat_two_pow (k : ℕ) : ofNat (2 ^ k) = X ^ k := by
  ext i
  rw [coeff_ofNat, coeff_X_pow, Nat.testBit_two_pow]
  by_cases h : k = i
  · simp [h]
  · simp [h, Ne.symm h]

theorem ofNat_eq_zero {n : ℕ} : ofNat n = 0 ↔ n = 0 := by
  constructor
  · intro h
    refine Nat.eq_of_testBit_eq fun i => ?_
    have := congrArg (fun p => coeff p i) h
    simp only [coeff_ofNat, coeff_zero, bit_eq_zero] at this
    simp [this]
  · rintro rfl; exact ofNat_zero

/-- A number below `2 ^ k` has degree below `k`. -/
theorem degree_ofNat_lt {n k : ℕ} (h : n < 2 ^ k) : (ofNat n).degree < k := by
  rw [degree_lt_iff_coeff_zero]
  intro m hm
  rw [coeff_ofNat, Nat.testBit_lt_two_pow (lt_of_lt_of_le h (Nat.pow_le_pow_right (by omega) hm))]
  rfl

/-! ### Byte strings -/

/-- The polynomial of a byte string, first byte (and in it the most significant bit) first. -/
noncomputable def ofBytes (m : List UInt8) : (ZMod 2)[X] :=
  m.foldl (fun p b => p * X ^ 8 + ofNat b.toNat) 0

@[simp] theorem ofBytes_nil : ofBytes [] = 0 := rfl

theorem ofBytes_concat (m : List UInt8) (b : UInt8) :
    ofBytes (m ++ [b]) = ofBytes m * X ^ 8 + ofNat b.toNat := by
  simp [ofBytes, List.foldl_append]

theorem ofBytes_append (m m' : List UInt8) :
    ofBytes (m ++ m') = ofBytes m * X ^ (8 * m'.length) + ofBytes m' := by
  induction m' using List.reverseRecOn with
  | nil => simp
  | append_singleton m' b ih =>
    rw [← List.append_assoc, ofBytes_concat, ih, ofBytes_concat, List.length_append,
      List.length_singleton, Nat.mul_add, pow_add]
    ring

/-- The bytes of a string exclusive-ored with an error pattern. -/
def xorBytes (m e : List UInt8) : List UInt8 := List.zipWith (· ^^^ ·) m e

@[simp] theorem length_xorBytes {m e : List UInt8} (h : m.length = e.length) :
    (xorBytes m e).length = m.length := by simp [xorBytes, h]

theorem ofBytes_xorBytes {m e : List UInt8} (h : m.length = e.length) :
    ofBytes (xorBytes m e) = ofBytes m + ofBytes e := by
  induction m using List.reverseRecOn generalizing e with
  | nil => obtain rfl : e = [] := by simpa using h.symm
           simp [xorBytes]
  | append_singleton m b ih =>
    rcases List.eq_nil_or_concat e with rfl | ⟨e', c, rfl⟩
    · simp at h
    · rw [List.concat_eq_append] at h ⊢
      have hl : m.length = e'.length := by simpa using h
      have hx : xorBytes (m ++ [b]) (e' ++ [c]) = xorBytes m e' ++ [b ^^^ c] := by
        simp [xorBytes, List.zipWith_append hl]
      rw [hx, ofBytes_concat, ih hl, ofBytes_concat, ofBytes_concat, UInt8.toNat_xor, ofNat_xor]
      ring

/-- Bit `k` of a byte string, counted from the most significant bit of the first byte. -/
def bitAt (m : List UInt8) (k : ℕ) : Bool := (m.getD (k / 8) 0).toNat.testBit (7 - k % 8)

theorem bitAt_append_left {m m' : List UInt8} {k : ℕ} (h : k < 8 * m.length) :
    bitAt (m ++ m') k = bitAt m k := by
  have : k / 8 < m.length := by omega
  simp only [bitAt, List.getD_eq_getElem?_getD, List.getElem?_append_left this]

theorem bitAt_of_le {m : List UInt8} {k : ℕ} (h : 8 * m.length ≤ k) : bitAt m k = false := by
  have : m.length ≤ k / 8 := by omega
  simp [bitAt, List.getD_eq_getElem?_getD, List.getElem?_eq_none this]

/-- **The coefficients of a byte string are its bits**, last bit at degree `0`. -/
theorem coeff_ofBytes (m : List UInt8) (i : ℕ) :
    (ofBytes m).coeff i = if i < 8 * m.length then bit (bitAt m (8 * m.length - 1 - i)) else 0 := by
  induction m using List.reverseRecOn generalizing i with
  | nil => simp
  | append_singleton m b ih =>
    have hb : b.toNat < 2 ^ 8 := b.toNat_lt
    rw [ofBytes_concat, coeff_add, coeff_mul_X_pow', coeff_ofNat, List.length_append,
      List.length_singleton]
    by_cases h8 : 8 ≤ i
    · rw [if_pos h8, ih, Nat.testBit_lt_two_pow (lt_of_lt_of_le hb
        (Nat.pow_le_pow_right (by omega) h8)), bit_false, add_zero]
      by_cases hi : i < 8 * (m.length + 1)
      · rw [if_pos (by omega), if_pos hi, show 8 * m.length - 1 - (i - 8) =
          8 * (m.length + 1) - 1 - i by omega, bitAt_append_left (by omega)]
      · rw [if_neg (by omega), if_neg hi]
    · rw [if_neg h8, zero_add, if_pos (by omega)]
      have hd : (8 * (m.length + 1) - 1 - i) / 8 = m.length := by omega
      have hm : 7 - (8 * (m.length + 1) - 1 - i) % 8 = i := by omega
      simp [bitAt, hd, hm]

theorem ofBytes_eq_zero_iff (m : List UInt8) : ofBytes m = 0 ↔ ∀ k, bitAt m k = false := by
  constructor
  · intro h k
    rcases Nat.lt_or_ge k (8 * m.length) with hk | hk
    · have := coeff_ofBytes m (8 * m.length - 1 - k)
      rw [h, coeff_zero, if_pos (by omega),
        show 8 * m.length - 1 - (8 * m.length - 1 - k) = k by omega] at this
      exact bit_eq_zero.mp this.symm
    · exact bitAt_of_le hk
  · intro h
    ext i
    rw [coeff_ofBytes, h]
    simp

/-! ### Which polynomials a divisor cannot divide -/

section Divisor

variable {g p : (ZMod 2)[X]}

/-- A divisor with constant term `1` that divides `X ^ a * q` divides `q`. -/
theorem dvd_of_dvd_X_pow_mul (hg : g.coeff 0 = 1) {a : ℕ} {q : (ZMod 2)[X]}
    (h : g ∣ X ^ a * q) : g ∣ q := by
  have hco : IsCoprime g X := by
    obtain ⟨f, hf⟩ : X ∣ g - C 1 := by
      rw [X_dvd_iff, coeff_sub, hg, coeff_C_zero, sub_self]
    refine ⟨1, -f, ?_⟩
    have : g = X * f + 1 := by rw [← hf, map_one, sub_add_cancel]
    rw [this]; ring
  exact (hco.pow_right).dvd_of_dvd_mul_left h

/-- **Bursts**: a polynomial whose terms all lie in a window shorter than the degree of `g` is not
divisible by `g`, unless it is zero. -/
theorem not_dvd_of_burst (hg : g.coeff 0 = 1) {a n : ℕ} (hn : (n : WithBot ℕ) ≤ g.degree)
    (hp : p ≠ 0) (hwin : ∀ i, p.coeff i ≠ 0 → a ≤ i ∧ i < a + n) : ¬ g ∣ p := by
  intro hdvd
  have hXa : X ^ a ∣ p := X_pow_dvd_iff.mpr fun d hd => by
    by_contra h
    exact absurd (hwin d h).1 (by omega)
  obtain ⟨q, rfl⟩ := hXa
  have hq : q ≠ 0 := fun h => hp (by rw [h, mul_zero])
  have hdeg : q.degree < n := by
    rw [degree_lt_iff_coeff_zero]
    intro m hm
    by_contra h
    have hc : (X ^ a * q).coeff (m + a) = q.coeff m := by
      rw [mul_comm, coeff_mul_X_pow]
    exact absurd (hwin (m + a) (by rw [hc]; exact h)).2 (by omega)
  exact absurd (degree_le_of_dvd (dvd_of_dvd_X_pow_mul hg hdvd) hq)
    (not_le.mpr (lt_of_lt_of_le hdeg hn))

/-- **Odd weight**: if `g` vanishes at `1` it divides no `p` with `p(1) = 1`. -/
theorem not_dvd_of_odd (hg : g.eval 1 = 0) (hp : p.eval 1 = 1) : ¬ g ∣ p := by
  rintro ⟨q, rfl⟩
  rw [eval_mul, hg, zero_mul] at hp
  exact zero_ne_one hp

end Divisor

/-- The value at `1` counts the set bits of a byte string, modulo two. -/
theorem eval_one_ofBytes (m : List UInt8) :
    (ofBytes m).eval 1 = ((Finset.range (8 * m.length)).filter (bitAt m ·)).card := by
  have hdeg : (ofBytes m).natDegree < 8 * m.length + 1 := by
    rw [Nat.lt_succ_iff, natDegree_le_iff_coeff_eq_zero]
    intro i hi
    rw [coeff_ofBytes, if_neg (by omega)]
  rw [eval_eq_sum_range' hdeg, Finset.sum_range_succ, coeff_ofBytes m (8 * m.length),
    if_neg (by omega), zero_mul, add_zero, ← Finset.sum_range_reflect,
    Finset.card_filter, Nat.cast_sum]
  refine Finset.sum_congr rfl fun k hk => ?_
  rw [Finset.mem_range] at hk
  rw [coeff_ofBytes, if_pos (by omega), one_pow, mul_one,
    show 8 * m.length - 1 - (8 * m.length - 1 - k) = k by omega]
  cases bitAt m k <;> simp

end GpsBase.Lib.BitPoly
