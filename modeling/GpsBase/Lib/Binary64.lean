import Mathlib.Tactic
import Mathlib.Data.Rat.Floor
import Mathlib.Data.NNRat.Floor

/-! # Double precision arithmetic

The numbers of IEEE 754 binary64 as a sign and an exact magnitude, with the operations of C on them:
each computes exactly and rounds to the nearest representable number, ties to even. Infinities and NaN
are as in the standard. A rounded magnitude does not exceed a power of two that the exact one does not
exceed (`nearest_le`), and a multiple of a place with few enough bits is not rounded
(`nearest_multiple`). -/

namespace GpsBase.Lib.Binary64

/-! ### Rounding -/

/-- `2 ^ e`. -/
def pow2 (e : ℤ) : ℚ := if 0 ≤ e then ((2 ^ e.toNat : ℕ) : ℚ) else 1 / ((2 ^ (-e).toNat : ℕ) : ℚ)

/-- The exponent of the leading bit of a positive number. -/
def ilog2 (q : ℚ) : ℤ :=
  let e : ℤ := (Nat.log2 q.num.toNat : ℤ) - (Nat.log2 q.den : ℤ)
  if pow2 e ≤ q then e else e - 1

/-- The natural number nearest to a number that is not negative, the even one of two. -/
def roundEven (q : ℚ) : ℕ :=
  let n := q.floor.toNat
  if q - n < 1 / 2 then n else if 1 / 2 < q - n then n + 1 else if n % 2 = 0 then n else n + 1

/-- The exponent of the last place of a magnitude. -/
def lastPlace (q : ℚ) : ℤ := max (-1074) (ilog2 q - 52)

/-- The representable magnitude nearest to a magnitude, overflow aside. -/
def nearest (q : ℚ) : ℚ := roundEven (q / pow2 (lastPlace q)) * pow2 (lastPlace q)

theorem pow2_eq (e : ℤ) : pow2 e = (2 : ℚ) ^ e := by
  unfold pow2
  split_ifs with h
  · obtain ⟨n, rfl⟩ := Int.eq_ofNat_of_zero_le h
    simp
  · obtain ⟨n, rfl⟩ : ∃ n : ℕ, e = -(n : ℤ) := ⟨(-e).toNat, by omega⟩
    simp

theorem nearest_nonneg (q : ℚ) : 0 ≤ nearest q := by
  unfold nearest
  rw [pow2_eq]
  positivity

theorem roundEven_le {q : ℚ} {n : ℕ} (h : q ≤ n) : roundEven q ≤ n := by
  have hfloor : q.floor.toNat ≤ n := by
    have h1 : (q.floor : ℚ) ≤ n := (Rat.floor_le q).trans h
    have h2 : q.floor ≤ n := by exact_mod_cast h1
    omega
  rcases hfloor.lt_or_eq with hlt | heq
  · unfold roundEven
    dsimp only
    split_ifs <;> omega
  · have hsmall : q - (q.floor.toNat : ℚ) < 1 / 2 := by
      rw [heq]
      linarith
    unfold roundEven
    dsimp only
    rw [if_pos hsmall]
    exact hfloor

theorem pow2_ilog2_le {q : ℚ} (h : 0 < q) : (2 : ℚ) ^ ilog2 q ≤ q := by
  unfold ilog2
  dsimp only
  split_ifs with he
  · rwa [pow2_eq] at he
  · have hnum : 0 < q.num := Rat.num_pos.mpr h
    have hn : (2 : ℚ) ^ (Nat.log2 q.num.toNat : ℤ) ≤ q.num := by
      have h1 := Nat.log2_self_le (n := q.num.toNat) (by omega)
      have h2 : ((2 ^ Nat.log2 q.num.toNat : ℕ) : ℤ) ≤ q.num := by omega
      rw [zpow_natCast]
      exact_mod_cast h2
    have hd : (q.den : ℚ) ≤ (2 : ℚ) ^ ((Nat.log2 q.den : ℤ) + 1) := by
      have h1 := (Nat.lt_log2_self (n := q.den)).le
      have h2 : ((Nat.log2 q.den : ℤ) + 1) = ((Nat.log2 q.den + 1 : ℕ) : ℤ) := by push_cast; rfl
      rw [h2, zpow_natCast]
      exact_mod_cast h1
    have hden : (0 : ℚ) < q.den := by exact_mod_cast q.den_pos
    have hexp : (Nat.log2 q.num.toNat : ℤ) - Nat.log2 q.den - 1 =
        (Nat.log2 q.num.toNat : ℤ) - ((Nat.log2 q.den : ℤ) + 1) := by ring
    rw [hexp, zpow_sub₀ (by norm_num)]
    calc (2 : ℚ) ^ (Nat.log2 q.num.toNat : ℤ) / 2 ^ ((Nat.log2 q.den : ℤ) + 1)
        ≤ q.num / q.den := by gcongr
      _ = q := Rat.num_div_den q

theorem ilog2_le {q : ℚ} (hq : 0 ≤ q) {k : ℕ} (h : q ≤ 2 ^ k) : ilog2 q ≤ k := by
  rcases hq.eq_or_lt with rfl | hpos
  · have h0 : ilog2 0 = -1 := by decide +kernel
    omega
  · have hle : (2 : ℚ) ^ ilog2 q ≤ 2 ^ (k : ℤ) := by
      rw [zpow_natCast]
      exact (pow2_ilog2_le hpos).trans h
    exact (zpow_le_zpow_iff_right₀ (by norm_num)).mp hle

/-- **Rounding does not exceed a power of two.** -/
theorem nearest_le {q : ℚ} (hq : 0 ≤ q) {k : ℕ} (h : q ≤ 2 ^ k) : nearest q ≤ 2 ^ k := by
  have hplace : lastPlace q ≤ k := by
    have := ilog2_le hq h
    unfold lastPlace
    omega
  have hpos : (0 : ℚ) < 2 ^ lastPlace q := by positivity
  have hsplit : (2 : ℚ) ^ k = 2 ^ ((k : ℤ) - lastPlace q).toNat * 2 ^ lastPlace q := by
    have hnat : (((k : ℤ) - lastPlace q).toNat : ℤ) = (k : ℤ) - lastPlace q := by omega
    rw [← zpow_natCast, ← zpow_natCast, hnat, ← zpow_add₀ (by norm_num)]
    congr 1
    ring
  have hround : roundEven (q / pow2 (lastPlace q)) ≤ 2 ^ ((k : ℤ) - lastPlace q).toNat := by
    refine roundEven_le ?_
    rw [pow2_eq, div_le_iff₀ hpos]
    push_cast
    rw [← hsplit]
    exact h
  unfold nearest
  rw [hsplit, pow2_eq]
  rw [pow2_eq] at hround
  gcongr
  exact_mod_cast hround

theorem lt_pow2_ilog2 {q : ℚ} (h : 0 < q) : q < (2 : ℚ) ^ (ilog2 q + 1) := by
  unfold ilog2
  dsimp only
  split_ifs with he
  · have hnum : 0 < q.num := Rat.num_pos.mpr h
    have hn : (q.num : ℚ) < (2 : ℚ) ^ ((Nat.log2 q.num.toNat : ℤ) + 1) := by
      have h1 := Nat.lt_log2_self (n := q.num.toNat)
      have h2 : ((Nat.log2 q.num.toNat : ℤ) + 1) = ((Nat.log2 q.num.toNat + 1 : ℕ) : ℤ) := by
        push_cast
        rfl
      have h3 : q.num < ((2 ^ (Nat.log2 q.num.toNat + 1) : ℕ) : ℤ) := by omega
      rw [h2, zpow_natCast]
      exact_mod_cast h3
    have hd : (2 : ℚ) ^ (Nat.log2 q.den : ℤ) ≤ q.den := by
      have h1 := Nat.log2_self_le q.den_pos.ne'
      rw [zpow_natCast]
      exact_mod_cast h1
    have hexp : (Nat.log2 q.num.toNat : ℤ) - Nat.log2 q.den + 1 =
        ((Nat.log2 q.num.toNat : ℤ) + 1) - (Nat.log2 q.den : ℤ) := by ring
    have hpos : (0 : ℚ) < (2 : ℚ) ^ (Nat.log2 q.den : ℤ) := by positivity
    rw [hexp, zpow_sub₀ (by norm_num)]
    calc q = q.num / q.den := (Rat.num_div_den q).symm
      _ ≤ q.num / (2 : ℚ) ^ (Nat.log2 q.den : ℤ) := by
        have h0 : (0 : ℚ) ≤ q.num := by exact_mod_cast hnum.le
        gcongr
      _ < (2 : ℚ) ^ ((Nat.log2 q.num.toNat : ℤ) + 1) / (2 : ℚ) ^ (Nat.log2 q.den : ℤ) := by
        gcongr
  · rw [sub_add_cancel]
    rwa [pow2_eq, not_le] at he

theorem roundEven_natCast (n : ℕ) : roundEven n = n := by
  unfold roundEven
  have hfloor : (n : ℚ).floor.toNat = n := by
    rw [show (n : ℚ) = ((n : ℤ) : ℚ) from by push_cast; rfl, Rat.floor_intCast]
    rfl
  rw [hfloor]
  dsimp only
  rw [sub_self, if_pos (by norm_num)]

/-- A multiple of a last place with few enough bits is not rounded. -/
theorem nearest_multiple {j : ℕ} {p : ℤ} (hp : -1074 ≤ p) (hj : j < 2 ^ 53) :
    nearest (j * 2 ^ p) = j * 2 ^ p := by
  rcases Nat.eq_zero_or_pos j with rfl | hpos
  · rw [Nat.cast_zero, zero_mul]
    decide +kernel
  · have hj0 : (0 : ℚ) < j := by exact_mod_cast hpos
    have hq : (0 : ℚ) < j * 2 ^ p := by positivity
    have hplace : lastPlace (j * 2 ^ p) ≤ p := by
      have hlt : (2 : ℚ) ^ ilog2 (j * 2 ^ p) < 2 ^ (53 + p) := by
        refine (pow2_ilog2_le hq).trans_lt ?_
        rw [zpow_add₀ (by norm_num)]
        have h53 : (j : ℚ) < 2 ^ (53 : ℤ) := by exact_mod_cast hj
        gcongr
      have hlog := (zpow_lt_zpow_iff_right₀ (by norm_num)).mp hlt
      unfold lastPlace
      omega
    obtain ⟨k, hk⟩ := Int.eq_ofNat_of_zero_le (sub_nonneg.mpr hplace)
    have hdiv : (j : ℚ) * 2 ^ p / 2 ^ lastPlace (j * 2 ^ p) = ((j * 2 ^ k : ℕ) : ℚ) := by
      rw [mul_div_assoc, ← zpow_sub₀ (by norm_num), hk, zpow_natCast]
      push_cast
      rfl
    have hplace0 : (2 : ℚ) ^ lastPlace (j * 2 ^ p) ≠ 0 := by positivity
    unfold nearest
    rw [pow2_eq, hdiv, roundEven_natCast, ← hdiv, div_mul_cancel₀ _ hplace0]

theorem multiple_of_nearest {q : ℚ} (h : nearest q = q) {k : ℤ} (hk : (2 : ℚ) ^ k ≤ q) :
    ∃ j : ℕ, q = j * 2 ^ (k - 52) := by
  have hq : 0 < q := lt_of_lt_of_le (by positivity) hk
  have hlog : k < ilog2 q + 1 :=
    (zpow_lt_zpow_iff_right₀ (by norm_num)).mp (hk.trans_lt (lt_pow2_ilog2 hq))
  have hplace : k - 52 ≤ lastPlace q := by
    unfold lastPlace
    omega
  obtain ⟨n, hn⟩ := Int.eq_ofNat_of_zero_le (sub_nonneg.mpr hplace)
  refine ⟨roundEven (q / pow2 (lastPlace q)) * 2 ^ n, ?_⟩
  have hexp : lastPlace q = (n : ℤ) + (k - 52) := by
    rw [← hn]
    ring
  conv_lhs => rw [← h]
  unfold nearest
  rw [pow2_eq (lastPlace q), hexp, zpow_add₀ (by norm_num), zpow_natCast]
  push_cast
  ring

theorem le_roundEven {q : ℚ} {n : ℕ} (h : (n : ℚ) ≤ q) : n ≤ roundEven q := by
  have hfloor : n ≤ q.floor.toNat := by
    have h1 : (n : ℤ) ≤ q.floor := Rat.le_floor_iff.mpr (by exact_mod_cast h)
    omega
  unfold roundEven
  dsimp only
  split_ifs <;> omega

/-- What is rounded to less than an even number: all that is more than a half below it. -/
theorem roundEven_lt_iff {q : ℚ} {n : ℕ} (hn : Even n) (hpos : 0 < n) :
    roundEven q < n ↔ q < n - 1 / 2 := by
  have hle : q < q.floor.toNat + 1 := by
    have h1 : q < (q.floor : ℚ) + 1 := by exact_mod_cast Rat.lt_floor_add_one q
    have h2 : (q.floor : ℚ) ≤ ((q.floor.toNat : ℤ) : ℚ) := by exact_mod_cast Int.self_le_toNat q.floor
    push_cast at h2
    linarith
  have hge : q.floor.toNat = 0 ∨ (q.floor.toNat : ℚ) ≤ q := by
    rcases le_or_gt 0 q.floor with h | h
    · refine Or.inr (le_trans (le_of_eq ?_) (Rat.floor_le q))
      exact_mod_cast Int.toNat_of_nonneg h
    · exact Or.inl (by omega)
  unfold roundEven
  dsimp only
  generalize q.floor.toNat = k at hle hge
  rcases lt_trichotomy (k + 1) n with hlt | heq | hgt
  · have h1 : ((k + 1 : ℕ) : ℚ) + 1 ≤ n := by exact_mod_cast hlt
    push_cast at h1
    refine iff_of_true (by split_ifs <;> omega) (by linarith)
  · -- the last number before `n` is odd, so a tie is rounded up
    have hodd : ¬ k % 2 = 0 := by
      obtain ⟨m, rfl⟩ := hn
      omega
    have hcast : (n : ℚ) = k + 1 := by rw [← heq]; push_cast; rfl
    rw [if_neg hodd, hcast]
    split_ifs with h1 h2
    · exact iff_of_true (by omega) (by linarith)
    · exact iff_of_false (by omega) (by linarith)
    · exact iff_of_false (by omega) (by linarith)
  · have hk : (n : ℚ) ≤ k := by exact_mod_cast (by omega : n ≤ k)
    refine iff_of_false (by split_ifs <;> omega) ?_
    rcases hge with h | h
    · omega
    · linarith

/-- **Rounding does not fall below a power of two.** -/
theorem le_nearest {q : ℚ} {k : ℤ} (hk : -1074 ≤ k) (h : (2 : ℚ) ^ k ≤ q) : (2 : ℚ) ^ k ≤ nearest q := by
  have hq : 0 < q := lt_of_lt_of_le (by positivity) h
  have hlog : k ≤ ilog2 q := by
    have hlt := (zpow_lt_zpow_iff_right₀ (by norm_num)).mp (h.trans_lt (lt_pow2_ilog2 hq))
    omega
  have hplace : lastPlace q ≤ ilog2 q := by
    unfold lastPlace
    omega
  obtain ⟨n, hn⟩ := Int.eq_ofNat_of_zero_le (sub_nonneg.mpr hplace)
  have hpos : (0 : ℚ) < 2 ^ lastPlace q := by positivity
  have hsplit : (2 : ℚ) ^ ilog2 q = (2 ^ n : ℕ) * 2 ^ lastPlace q := by
    have hexp : ilog2 q = (n : ℤ) + lastPlace q := by
      rw [← hn]
      ring
    rw [hexp, zpow_add₀ (by norm_num), zpow_natCast]
    push_cast
    rfl
  have hround : 2 ^ n ≤ roundEven (q / pow2 (lastPlace q)) := by
    refine le_roundEven ?_
    rw [pow2_eq, le_div_iff₀ hpos, ← hsplit]
    exact pow2_ilog2_le hq
  calc (2 : ℚ) ^ k ≤ 2 ^ ilog2 q := zpow_le_zpow_right₀ (by norm_num) hlog
    _ = (2 ^ n : ℕ) * 2 ^ lastPlace q := hsplit
    _ ≤ nearest q := by
      unfold nearest
      rw [pow2_eq]
      rw [pow2_eq] at hround
      gcongr

/-- The distance of a magnitude to an integer is not rounded where it is below one. -/
theorem nearest_sub {m : ℚ} (hm : nearest m = m) {n : ℕ} (h1 : 1 ≤ m) (hn : |m - n| < 1) :
    nearest |m - n| = |m - n| := by
  obtain ⟨j, hj⟩ := multiple_of_nearest hm (k := 0) (by simpa using h1)
  obtain ⟨d, hd⟩ : ∃ d : ℕ, d = 2 ^ 52 := ⟨_, rfl⟩
  have hd0 : (0 : ℚ) < d := by
    rw [hd]
    positivity
  have hplace : (2 : ℚ) ^ (0 - 52 : ℤ) = 1 / (d : ℚ) := by
    rw [hd]
    norm_num
  have hdiff : |m - n| = (((j : ℤ) - n * d).natAbs : ℚ) * 2 ^ (0 - 52 : ℤ) := by
    have h1 : m - n = (((j : ℤ) - n * d : ℤ) : ℚ) / d := by
      rw [hj, hplace]
      push_cast
      field_simp
    rw [h1, abs_div, abs_of_pos hd0, hplace, mul_one_div, Nat.cast_natAbs, Int.cast_abs]
  have hsmall : ((j : ℤ) - n * d).natAbs < 2 ^ 53 := by
    have h2 : (((j : ℤ) - n * d).natAbs : ℚ) < d := by
      rw [hdiff, hplace, mul_one_div, div_lt_one hd0] at hn
      exact hn
    have h3 : ((j : ℤ) - n * d).natAbs < d := by exact_mod_cast h2
    rw [hd] at h3 ⊢
    omega
  rw [hdiff]
  exact nearest_multiple (by norm_num) hsmall

/-! ### Numbers -/

/-- A double; the magnitude of a number is kept apart from its sign. -/
inductive Float64
  | nan (neg : Bool)
  | inf (neg : Bool)
  | fin (neg : Bool) (mag : ℚ≥0)
  deriving DecidableEq

namespace Float64

def signed (neg : Bool) (mag : ℚ≥0) : ℚ := if neg then -mag else mag

/-- A result rounded; `neg` is the sign of a zero. -/
def ofRat (neg : Bool) (q : ℚ) : Float64 :=
  if q = 0 then fin neg 0
  else if pow2 1024 ≤ nearest |q| then inf (decide (q < 0))
  else fin (decide (q < 0)) (nearest |q|).toNNRat

def ofInt (n : ℤ) : Float64 := ofRat false n

/-- `-x`. -/
def neg : Float64 → Float64
  | nan s => nan !s
  | inf s => inf !s
  | fin s m => fin (!s) m

/-- `x + y`. -/
def add : Float64 → Float64 → Float64
  | nan s, _ => nan s
  | _, nan s => nan s
  | inf s, inf t => if s = t then inf s else nan false
  | inf s, fin _ _ => inf s
  | fin _ _, inf t => inf t
  | fin s m, fin t n => ofRat (s && t) (signed s m + signed t n)

/-- `x - y`. -/
def sub (x y : Float64) : Float64 := add x (neg y)

/-- `x * y`. -/
def mul : Float64 → Float64 → Float64
  | nan s, _ => nan s
  | _, nan s => nan s
  | inf s, inf t => inf (s ^^ t)
  | inf s, fin t n => if n = 0 then nan false else inf (s ^^ t)
  | fin s m, inf t => if m = 0 then nan false else inf (s ^^ t)
  | fin s m, fin t n => ofRat (s ^^ t) (signed s m * signed t n)

/-- `x / y`. -/
def div : Float64 → Float64 → Float64
  | nan s, _ => nan s
  | _, nan s => nan s
  | inf _, inf _ => nan false
  | inf s, fin t _ => inf (s ^^ t)
  | fin s _, inf t => fin (s ^^ t) 0
  | fin s m, fin t n =>
    if n = 0 then if m = 0 then nan false else inf (s ^^ t)
    else ofRat (s ^^ t) (signed s m / signed t n)

/-- `fabs(x)`. -/
def abs : Float64 → Float64
  | nan _ => nan false
  | inf _ => inf false
  | fin _ m => fin false m

/-- `floor(x)`. -/
def floor : Float64 → Float64
  | nan s => nan s
  | inf s => inf s
  | fin s m => fin s (signed s m).floor.natAbs

/-- `fmod(x, y)`. -/
def fmod : Float64 → Float64 → Float64
  | nan s, _ => nan s
  | _, nan s => nan s
  | inf _, _ => nan false
  | fin s m, inf _ => fin s m
  | fin s m, fin _ n => if n = 0 then nan false else fin s (m - n * ⌊m / n⌋₊)

/-- `x < y`. -/
def lt : Float64 → Float64 → Bool
  | nan _, _ => false
  | _, nan _ => false
  | inf s, inf t => s && !t
  | inf s, fin _ _ => s
  | fin _ _, inf t => !t
  | fin s m, fin t n => decide (signed s m < signed t n)

/-- `x <= y`. -/
def le : Float64 → Float64 → Bool
  | nan _, _ => false
  | _, nan _ => false
  | inf s, inf t => s || !t
  | inf s, fin _ _ => s
  | fin _ _, inf t => !t
  | fin s m, fin t n => decide (signed s m ≤ signed t n)

/-- A conversion to an integer type of `bits` bits, towards zero. C leaves open what it gives where
the result does not fit; `other` stands for that. -/
def toInt (bits : ℕ) (other : Float64 → ℤ) (x : Float64) : ℤ :=
  match x with
  | nan _ => other x
  | inf _ => other x
  | fin s m =>
    let n : ℤ := if s then -⌊m⌋₊ else ⌊m⌋₊
    if -2 ^ (bits - 1) ≤ n ∧ n < 2 ^ (bits - 1) then n else other x

/-! ### Bounds -/

/-- No number, or one of magnitude at most `2 ^ k`. -/
def AtMost (k : ℕ) : Float64 → Prop
  | nan _ => True
  | inf _ => False
  | fin _ m => (m : ℚ) ≤ 2 ^ k

theorem atMost_ofRat (neg : Bool) {q : ℚ} {k : ℕ} (hk : k < 1024) (h : |q| ≤ 2 ^ k) :
    (ofRat neg q).AtMost k := by
  have hle := nearest_le (abs_nonneg q) h
  have hlt : (2 : ℚ) ^ k < pow2 1024 := by
    rw [pow2_eq, ← zpow_natCast]
    exact zpow_lt_zpow_right₀ (by norm_num) (by omega)
  unfold ofRat
  split_ifs with h0 hover
  · show ((0 : ℚ≥0) : ℚ) ≤ 2 ^ k
    positivity
  · exact absurd hlt (not_lt.mpr (hover.trans hle))
  · show (((nearest |q|).toNNRat : ℚ≥0) : ℚ) ≤ 2 ^ k
    rw [Rat.coe_toNNRat _ (nearest_nonneg _)]
    exact hle

theorem abs_signed (neg : Bool) (m : ℚ≥0) : |signed neg m| = m := by
  unfold signed
  rcases neg with _ | _ <;> simp

theorem fmod_one (x : Float64) :
    (∃ s, fmod x (ofInt 1) = nan s) ∨ ∃ s m, fmod x (ofInt 1) = fin s m ∧ (m : ℚ) ≤ 1 := by
  have h1 : ofInt 1 = fin false 1 := by decide +kernel
  rw [h1]
  cases x with
  | nan s => exact Or.inl ⟨s, rfl⟩
  | inf s => exact Or.inl ⟨false, rfl⟩
  | fin s m =>
    refine Or.inr ⟨s, m - 1 * ⌊m / 1⌋₊, rfl, ?_⟩
    have hlt : m < ⌊m⌋₊ + 1 := Nat.lt_floor_add_one m
    have hle : m - ⌊m⌋₊ ≤ 1 := tsub_le_iff_left.mpr hlt.le
    rw [one_mul, div_one]
    exact_mod_cast hle

theorem atMost_add_fmod {n : ℤ} {k : ℕ} (hk : k < 1023) (hn : |n| ≤ 2 ^ k) (x : Float64) :
    (add (ofInt n) (fmod x (ofInt 1))).AtMost (k + 1) := by
  have hint : (ofInt n).AtMost k := atMost_ofRat false (by omega) (by exact_mod_cast hn)
  rcases hx : ofInt n with s | s | ⟨s, m⟩
  · exact trivial
  · rw [hx] at hint
    exact hint.elim
  · rw [hx] at hint
    rcases fmod_one x with ⟨t, ht⟩ | ⟨t, m', ht, hm'⟩
    · rw [ht]
      exact trivial
    · rw [ht]
      refine atMost_ofRat _ (by omega) ((abs_add_le _ _).trans ?_)
      rw [abs_signed, abs_signed, pow_succ]
      have h1 : (1 : ℚ) ≤ 2 ^ k := one_le_pow₀ (by norm_num)
      have hm : (m : ℚ) ≤ 2 ^ k := hint
      linarith

/-! ### Exact results -/

theorem ofRat_exact {q : ℚ≥0} (h : nearest q = q) {k : ℕ} (hk : k < 1024) (hle : (q : ℚ) ≤ 2 ^ k) :
    ofRat false q = fin false q := by
  have hlt : (2 : ℚ) ^ k < pow2 1024 := by
    rw [pow2_eq, ← zpow_natCast]
    exact zpow_lt_zpow_right₀ (by norm_num) (by omega)
  unfold ofRat
  by_cases hq : (q : ℚ) = 0
  · have h0 : q = 0 := by exact_mod_cast hq
    rw [if_pos hq, h0]
  · have h0 : (0 : ℚ) ≤ q := q.coe_nonneg
    rw [if_neg hq, abs_of_nonneg h0, h, if_neg (not_le.mpr (hle.trans_lt hlt)),
      decide_eq_false (not_lt.mpr h0), NNRat.toNNRat_coe]

theorem ofInt_natCast {k : ℕ} (h : k < 2 ^ 53) : ofInt k = fin false k := by
  have hnear : nearest ((k : ℚ≥0) : ℚ) = (k : ℚ≥0) := by
    have hmul := nearest_multiple (j := k) (p := 0) (by norm_num) h
    rw [zpow_zero, mul_one] at hmul
    rw [NNRat.cast_natCast]
    exact hmul
  have hle : (((k : ℚ≥0) : ℚ)) ≤ 2 ^ 53 := by
    rw [NNRat.cast_natCast]
    exact_mod_cast h.le
  have hexact := ofRat_exact hnear (by norm_num) hle
  rwa [NNRat.cast_natCast] at hexact

/-- A small number of seconds with the fraction of a time added is not rounded: the fraction of a
time from 32 on is a multiple of `2 ^ -47`. -/
theorem nearest_add_fract {m : ℚ≥0} {k : ℕ} (hm : nearest m = m) (hk : k < 64)
    (hfloor : m < 32 → k = ⌊m⌋₊) :
    nearest ((k + (m - ⌊m⌋₊) : ℚ≥0) : ℚ) = (k + (m - ⌊m⌋₊) : ℚ≥0) := by
  rcases lt_or_ge m 32 with hlt | hge
  · rw [hfloor hlt, add_tsub_cancel_of_le (Nat.floor_le zero_le)]
    exact hm
  · have hpow : (2 : ℚ) ^ (5 : ℤ) ≤ m := by
      have h32 : ((32 : ℚ≥0) : ℚ) ≤ m := by exact_mod_cast hge
      norm_num at h32 ⊢
      exact h32
    obtain ⟨j, hj⟩ := multiple_of_nearest hm hpow
    obtain ⟨d, hd⟩ : ∃ d : ℕ, d = 2 ^ 47 := ⟨_, rfl⟩
    have hd0 : (0 : ℚ≥0) < d := by
      rw [hd]
      positivity
    have hplace : (2 : ℚ) ^ (5 - 52 : ℤ) = 1 / ((d : ℚ≥0) : ℚ) := by
      rw [hd, NNRat.cast_natCast]
      norm_num
    have hm' : m = j / d := by
      rw [hplace] at hj
      have h1 : (m : ℚ) = ((j / d : ℚ≥0) : ℚ) := by
        rw [hj, NNRat.cast_div, NNRat.cast_natCast, NNRat.cast_natCast, mul_one_div]
      exact_mod_cast h1
    have hle : (⌊m⌋₊ : ℚ≥0) ≤ m := Nat.floor_le zero_le
    have hlt : m < ⌊m⌋₊ + 1 := Nat.lt_floor_add_one m
    generalize ⌊m⌋₊ = n at hle hlt
    have hlow : n * d ≤ j := by
      rw [hm', le_div_iff₀ hd0] at hle
      exact_mod_cast hle
    have hhigh : j < (n + 1) * d := by
      rw [hm', div_lt_iff₀ hd0] at hlt
      exact_mod_cast hlt
    obtain ⟨i, rfl⟩ := Nat.exists_eq_add_of_le hlow
    have hi : i < d := by
      rw [add_mul, one_mul] at hhigh
      exact Nat.lt_of_add_lt_add_left hhigh
    have hsum : (k + (m - n) : ℚ≥0) = ((k * d + i : ℕ) : ℚ≥0) / d := by
      rw [hm', Nat.cast_add, Nat.cast_mul, add_div, mul_div_cancel_right₀ _ hd0.ne',
        add_tsub_cancel_left, Nat.cast_add, Nat.cast_mul, add_div, mul_div_cancel_right₀ _ hd0.ne']
    have hcast : ((k + (m - n) : ℚ≥0) : ℚ) = ((k * d + i : ℕ) : ℚ) * 2 ^ (5 - 52 : ℤ) := by
      rw [hsum, hplace, NNRat.cast_div, NNRat.cast_natCast, mul_one_div]
    have hbits : k * d + i < 2 ^ 53 := by
      rw [hd] at hi ⊢
      omega
    rw [hcast]
    exact nearest_multiple (by norm_num) hbits

theorem toInt_add_fmod {neg : Bool} {m : ℚ≥0} {k : ℕ} (hm : nearest m = m)
    (hneg : neg = false ∨ m = 0) (hk : k < 64) (hfloor : m < 32 → k = ⌊m⌋₊) {bits : ℕ}
    (hbits : 8 ≤ bits) (other : Float64 → ℤ) :
    toInt bits other (add (ofInt k) (fmod (fin neg m) (ofInt 1))) = k := by
  have hfract : ((m - ⌊m⌋₊ : ℚ≥0) : ℚ) < 1 := by
    have h1 : m < 1 + ⌊m⌋₊ := by
      rw [add_comm]
      exact Nat.lt_floor_add_one m
    have h2 : m - ⌊m⌋₊ < 1 := (tsub_lt_iff_right (Nat.floor_le zero_le)).mpr h1
    exact_mod_cast h2
  have hone : ofInt 1 = fin false 1 := by decide +kernel
  have hsum : add (ofInt k) (fmod (fin neg m) (ofInt 1)) = fin false (k + (m - ⌊m⌋₊)) := by
    have hsigned : signed neg (m - ⌊m⌋₊) = (m - ⌊m⌋₊ : ℚ≥0) := by
      rcases hneg with rfl | rfl
      · rfl
      · rw [Nat.floor_zero, Nat.cast_zero, tsub_zero]
        rcases neg with _ | _ <;> simp [signed]
    rw [ofInt_natCast (by omega), hone]
    show ofRat false (signed false k + signed neg (m - 1 * ⌊m / 1⌋₊)) = _
    rw [one_mul, div_one, hsigned]
    show ofRat false (((k : ℚ≥0) : ℚ) + ((m - ⌊m⌋₊ : ℚ≥0) : ℚ)) = _
    rw [← NNRat.cast_add]
    refine ofRat_exact (k := 7) (nearest_add_fract hm hk hfloor) (by norm_num) ?_
    rw [NNRat.cast_add, NNRat.cast_natCast]
    have hk1 : (k : ℚ) ≤ 63 := by exact_mod_cast (show k ≤ 63 by omega)
    linarith
  have hk7 : (k : ℤ) < 2 ^ (bits - 1) := by
    have h1 : (2 : ℤ) ^ 7 ≤ 2 ^ (bits - 1) := pow_le_pow_right₀ (by norm_num) (by omega)
    omega
  have hfl : ⌊(k + (m - ⌊m⌋₊) : ℚ≥0)⌋₊ = k := by
    have h1 : (m - ⌊m⌋₊ : ℚ≥0) < 1 := by exact_mod_cast hfract
    rw [add_comm, Nat.floor_add_natCast zero_le, Nat.floor_eq_zero.mpr h1, zero_add]
  rw [hsum]
  unfold toInt
  dsimp only
  rw [hfl]
  have hpow : (0 : ℤ) < 2 ^ (bits - 1) := by positivity
  exact if_pos ⟨by simp only [Bool.false_eq_true, if_false]; omega, by
    simp only [Bool.false_eq_true, if_false]
    exact hk7⟩

theorem ofRat_nonneg (b : Bool) {q : ℚ} (hq : 0 ≤ q) {k : ℕ} (hk : k < 1024) (hle : q ≤ 2 ^ k) :
    ∃ s m, ofRat b q = fin s m ∧ (m : ℚ) = nearest q ∧ (m : ℚ) ≤ 2 ^ k ∧ (s = false ∨ q = 0) := by
  have hbound := atMost_ofRat b hk (q := q) (by rwa [abs_of_nonneg hq])
  have hlt : (2 : ℚ) ^ k < pow2 1024 := by
    rw [pow2_eq, ← zpow_natCast]
    exact zpow_lt_zpow_right₀ (by norm_num) (by omega)
  have hnear := nearest_le hq hle
  unfold ofRat at hbound ⊢
  rw [abs_of_nonneg hq] at hbound ⊢
  by_cases h0 : q = 0
  · rw [if_pos h0]
    refine ⟨b, 0, rfl, ?_, by positivity, Or.inr h0⟩
    rw [h0]
    decide +kernel
  · rw [if_neg h0, if_neg (not_le.mpr (hnear.trans_lt hlt)), decide_eq_false (not_lt.mpr hq)]
    refine ⟨false, _, rfl, ?_, ?_, Or.inl rfl⟩
    · rw [Rat.coe_toNNRat _ (nearest_nonneg q)]
    · rw [Rat.coe_toNNRat _ (nearest_nonneg q)]
      exact hnear

theorem abs_ofRat (b : Bool) {q : ℚ} {k : ℕ} (hk : k < 1024) (hle : |q| ≤ 2 ^ k) :
    ∃ m : ℚ≥0, (ofRat b q).abs = fin false m ∧ (m : ℚ) = nearest |q| := by
  have hlt : (2 : ℚ) ^ k < pow2 1024 := by
    rw [pow2_eq, ← zpow_natCast]
    exact zpow_lt_zpow_right₀ (by norm_num) (by omega)
  have hnear := nearest_le (abs_nonneg q) hle
  unfold ofRat
  by_cases h0 : q = 0
  · rw [if_pos h0, h0, abs_zero]
    exact ⟨0, rfl, by decide +kernel⟩
  · rw [if_neg h0, if_neg (not_le.mpr (hnear.trans_lt hlt))]
    exact ⟨_, rfl, Rat.coe_toNNRat _ (nearest_nonneg _)⟩

theorem signed_of_nonneg {s : Bool} {m : ℚ≥0} (h : s = false ∨ m = 0) : signed s m = m := by
  rcases h with rfl | rfl
  · rfl
  · rcases s with _ | _ <;> simp [signed]

/-! ### Integers -/

def IsInt (x : Float64) (n : ℤ) : Prop :=
  ∃ s, x = fin s (n.natAbs : ℕ) ∧ signed s (n.natAbs : ℕ) = n

theorem isInt_ofRat (b : Bool) {n : ℤ} (h : n.natAbs < 2 ^ 53) : IsInt (ofRat b n) n := by
  have habs : |(n : ℚ)| = ((n.natAbs : ℕ) : ℚ) := by
    rw [Nat.cast_natAbs, Int.cast_abs]
  have hle : |(n : ℚ)| ≤ 2 ^ 53 := by
    rw [habs]
    exact_mod_cast h.le
  have hnear : nearest |(n : ℚ)| = ((n.natAbs : ℕ) : ℚ) := by
    have hmul := nearest_multiple (j := n.natAbs) (p := 0) (by norm_num) h
    rw [zpow_zero, mul_one] at hmul
    rw [habs, hmul]
  have hlt : ¬ pow2 1024 ≤ nearest |(n : ℚ)| := by
    rw [pow2_eq, not_le]
    calc nearest |(n : ℚ)| ≤ 2 ^ 53 := nearest_le (abs_nonneg _) hle
      _ = 2 ^ (53 : ℤ) := by norm_cast
      _ < 2 ^ (1024 : ℤ) := zpow_lt_zpow_right₀ (by norm_num) (by norm_num)
  unfold ofRat
  by_cases h0 : (n : ℚ) = 0
  · have hn : n = 0 := by exact_mod_cast h0
    rw [if_pos h0, hn]
    exact ⟨b, rfl, by rcases b with _ | _ <;> simp [signed]⟩
  · have hto : (nearest |(n : ℚ)|).toNNRat = ((n.natAbs : ℕ) : ℚ≥0) := by
      rw [hnear, ← NNRat.cast_natCast, NNRat.toNNRat_coe]
    rw [if_neg h0, if_neg hlt, hto]
    refine ⟨_, rfl, ?_⟩
    unfold signed
    rw [NNRat.cast_natCast, ← habs]
    by_cases hneg : (n : ℚ) < 0
    · rw [decide_eq_true hneg, if_pos rfl, abs_of_neg hneg, neg_neg]
    · rw [decide_eq_false hneg, if_neg Bool.false_ne_true, abs_of_nonneg (not_lt.mp hneg)]

theorem isInt_ofInt {n : ℤ} (h : n.natAbs < 2 ^ 53) : IsInt (ofInt n) n := isInt_ofRat false h

theorem IsInt.add {x y : Float64} {a b : ℤ} (hx : IsInt x a) (hy : IsInt y b)
    (h : (a + b).natAbs < 2 ^ 53) : IsInt (x.add y) (a + b) := by
  obtain ⟨s, rfl, hs⟩ := hx
  obtain ⟨t, rfl, ht⟩ := hy
  have hsum := isInt_ofRat (s && t) h
  rw [Int.cast_add, ← hs, ← ht] at hsum
  exact hsum

theorem IsInt.neg {x : Float64} {a : ℤ} (hx : IsInt x a) : IsInt x.neg (-a) := by
  obtain ⟨s, rfl, hs⟩ := hx
  refine ⟨!s, ?_, ?_⟩
  · rw [Int.natAbs_neg]
    rfl
  · rw [Int.natAbs_neg, Int.cast_neg, ← hs]
    rcases s with _ | _ <;> simp [signed]

theorem IsInt.sub {x y : Float64} {a b : ℤ} (hx : IsInt x a) (hy : IsInt y b)
    (h : (a - b).natAbs < 2 ^ 53) : IsInt (x.sub y) (a - b) :=
  hx.add hy.neg h

theorem IsInt.mul {x y : Float64} {a b : ℤ} (hx : IsInt x a) (hy : IsInt y b)
    (h : (a * b).natAbs < 2 ^ 53) : IsInt (x.mul y) (a * b) := by
  obtain ⟨s, rfl, hs⟩ := hx
  obtain ⟨t, rfl, ht⟩ := hy
  have hprod := isInt_ofRat (s ^^ t) h
  rw [Int.cast_mul, ← hs, ← ht] at hprod
  exact hprod

theorem IsInt.le {x y : Float64} {a b : ℤ} (hx : IsInt x a) (hy : IsInt y b) :
    x.le y = decide (a ≤ b) := by
  obtain ⟨s, rfl, hs⟩ := hx
  obtain ⟨t, rfl, ht⟩ := hy
  unfold Float64.le
  dsimp only
  rw [hs, ht]
  exact decide_eq_decide.mpr (by exact_mod_cast Iff.rfl)

theorem IsInt.toInt {x : Float64} {n : ℤ} (h : IsInt x n) {bits : ℕ} (h1 : -2 ^ (bits - 1) ≤ n)
    (h2 : n < 2 ^ (bits - 1)) (other : Float64 → ℤ) : x.toInt bits other = n := by
  obtain ⟨s, rfl, hs⟩ := h
  have hn : (if s then -(⌊((n.natAbs : ℕ) : ℚ≥0)⌋₊ : ℤ) else ⌊((n.natAbs : ℕ) : ℚ≥0)⌋₊) = n := by
    rw [Nat.floor_natCast]
    unfold signed at hs
    rcases s with _ | _
    · have hcast : ((n.natAbs : ℤ) : ℚ) = n := by simpa using hs
      simpa using Int.cast_injective hcast
    · have hcast : ((-(n.natAbs : ℤ) : ℤ) : ℚ) = n := by simpa using hs
      simpa using Int.cast_injective hcast
  unfold Float64.toInt
  dsimp only
  rw [hn, if_pos ⟨h1, h2⟩]

theorem IsInt.fmod_one {x : Float64} {n : ℤ} (h : IsInt x n) : IsInt (x.fmod (ofInt 1)) 0 := by
  obtain ⟨s, rfl, -⟩ := h
  have h1 : ofInt 1 = fin false 1 := by decide +kernel
  refine ⟨s, ?_, by rcases s with _ | _ <;> simp [signed]⟩
  rw [h1]
  unfold fmod
  dsimp only
  rw [if_neg one_ne_zero, div_one, Nat.floor_natCast, one_mul, tsub_self]
  rfl

theorem isInt_floor (s : Bool) (m : ℚ≥0) : IsInt (fin s m).floor ⌊signed s m⌋ := by
  refine ⟨s, rfl, ?_⟩
  have hm : (0 : ℚ) ≤ m := m.coe_nonneg
  rcases s with _ | _
  · have h0 : 0 ≤ ⌊signed false m⌋ := Int.floor_nonneg.mpr hm
    rw [signed, if_neg Bool.false_ne_true, NNRat.cast_natCast, Nat.cast_natAbs, abs_of_nonneg h0]
  · have h0 : ⌊signed true m⌋ ≤ 0 := Int.floor_nonpos (neg_nonpos.mpr hm)
    rw [signed, if_pos rfl, NNRat.cast_natCast, Nat.cast_natAbs, abs_of_nonpos h0, Int.cast_neg,
      neg_neg]

end Float64

end GpsBase.Lib.Binary64
