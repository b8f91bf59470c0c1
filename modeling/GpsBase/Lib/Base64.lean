import Mathlib.Tactic

/-! # Base64

Three bytes are four letters of six bits each; one or two bytes left over are padded. What is encoded is
decoded to itself (`decode_encode`), and has only letters and the padding in it (`mem_encode`). -/

namespace GpsBase.Lib.Base64

/-! ### Letters -/

def letter (n : ℕ) : UInt8 :=
  if n < 26 then UInt8.ofNat (65 + n)
  else if n < 52 then UInt8.ofNat (71 + n)
  else if n < 62 then UInt8.ofNat (n - 4)
  else if n = 62 then 43
  else 47

def pad : UInt8 := 61

def bits (b : UInt8) : Option ℕ :=
  if 65 ≤ b ∧ b ≤ 90 then some (b.toNat - 65)
  else if 97 ≤ b ∧ b ≤ 122 then some (b.toNat - 71)
  else if 48 ≤ b ∧ b ≤ 57 then some (b.toNat + 4)
  else if b = 43 then some 62
  else if b = 47 then some 63
  else none

theorem bits_letter : ∀ n < 64, bits (letter n) = some n := by decide

theorem letter_ne_pad : ∀ n < 64, letter n ≠ pad := by decide

theorem letter_bounds : ∀ n < 64, 43 ≤ letter n ∧ letter n ≤ 122 := by decide

/-! ### Texts -/

/-- The encoding. -/
def encode : List UInt8 → List UInt8
  | a :: b :: c :: s =>
    let n := a.toNat * 65536 + b.toNat * 256 + c.toNat
    letter (n / 262144) :: letter (n / 4096 % 64) :: letter (n / 64 % 64) :: letter (n % 64) :: encode s
  | [a, b] =>
    let n := a.toNat * 65536 + b.toNat * 256
    [letter (n / 262144), letter (n / 4096 % 64), letter (n / 64 % 64), pad]
  | [a] =>
    let n := a.toNat * 65536
    [letter (n / 262144), letter (n / 4096 % 64), pad, pad]
  | [] => []

def threeBytes (w x y z : ℕ) : List UInt8 :=
  let n := w * 262144 + x * 4096 + y * 64 + z
  [UInt8.ofNat (n / 65536), UInt8.ofNat (n / 256 % 256), UInt8.ofNat (n % 256)]

def decode : List UInt8 → Option (List UInt8)
  | [] => some []
  | w :: x :: y :: z :: s =>
    if z = pad ∧ y = pad then
      if s = [] then do
        let w ← bits w
        let x ← bits x
        some ((threeBytes w x 0 0).take 1)
      else none
    else if z = pad then
      if s = [] then do
        let w ← bits w
        let x ← bits x
        let y ← bits y
        some ((threeBytes w x y 0).take 2)
      else none
    else do
      let w ← bits w
      let x ← bits x
      let y ← bits y
      let z ← bits z
      let rest ← decode s
      some (threeBytes w x y z ++ rest)
  | _ => none

theorem threeBytes_letters (a b c : UInt8) :
    let n := a.toNat * 65536 + b.toNat * 256 + c.toNat
    threeBytes (n / 262144) (n / 4096 % 64) (n / 64 % 64) (n % 64) = [a, b, c] := by
  have ha := a.toNat_lt
  have hb := b.toNat_lt
  have hc := c.toNat_lt
  dsimp only
  set n := a.toNat * 65536 + b.toNat * 256 + c.toNat with hn
  have hjoin : n / 262144 * 262144 + n / 4096 % 64 * 4096 + n / 64 % 64 * 64 + n % 64 = n := by
    have h1 := Nat.div_add_mod n 64
    have h2 := Nat.div_add_mod (n / 64) 64
    have h3 := Nat.div_add_mod (n / 4096) 64
    rw [Nat.div_div_eq_div_mul, show 64 * 64 = 4096 from rfl] at h2
    rw [Nat.div_div_eq_div_mul, show 4096 * 64 = 262144 from rfl] at h3
    linarith
  unfold threeBytes
  rw [hjoin]
  have h1 : n / 65536 = a.toNat := by omega
  have h2 : n / 256 % 256 = b.toNat := by omega
  have h3 : n % 256 = c.toNat := by omega
  dsimp only
  rw [h1, h2, h3, UInt8.ofNat_toNat, UInt8.ofNat_toNat, UInt8.ofNat_toNat]

theorem bits_lt (a b c : UInt8) :
    let n := a.toNat * 65536 + b.toNat * 256 + c.toNat
    n / 262144 < 64 ∧ n / 4096 % 64 < 64 ∧ n / 64 % 64 < 64 ∧ n % 64 < 64 := by
  have ha := a.toNat_lt
  have hb := b.toNat_lt
  have hc := c.toNat_lt
  dsimp only
  exact ⟨Nat.div_lt_of_lt_mul (by omega), Nat.mod_lt _ (by decide), Nat.mod_lt _ (by decide),
    Nat.mod_lt _ (by decide)⟩

/-- **What is encoded is decoded to itself.** -/
theorem decode_encode (s : List UInt8) : decode (encode s) = some s := by
  induction s using encode.induct with
  | case1 a b c s ih =>
    obtain ⟨h1, h2, h3, h4⟩ := bits_lt a b c
    have hbytes := threeBytes_letters a b c
    dsimp only at h1 h2 h3 h4 hbytes
    rw [encode, decode, if_neg fun h => letter_ne_pad _ h4 h.1, if_neg (letter_ne_pad _ h4), bits_letter _ h1,
      bits_letter _ h2, bits_letter _ h3, bits_letter _ h4, ih]
    exact congrArg (fun front => some (front ++ s)) hbytes
  | case2 a b =>
    obtain ⟨h1, h2, h3, h4⟩ := bits_lt a b 0
    have hbytes := threeBytes_letters a b 0
    have hzero : (a.toNat * 65536 + b.toNat * 256) % 64 = 0 := by omega
    simp only [UInt8.toNat_zero, Nat.add_zero, hzero] at h1 h2 h3 h4 hbytes
    rw [encode, decode, if_neg fun h => letter_ne_pad _ h3 h.2, if_pos rfl, if_pos rfl, bits_letter _ h1,
      bits_letter _ h2, bits_letter _ h3]
    exact congrArg (fun front => some (front.take 2)) hbytes
  | case3 a =>
    obtain ⟨h1, h2, h3, h4⟩ := bits_lt a 0 0
    have hbytes := threeBytes_letters a 0 0
    have hzero : a.toNat * 65536 % 64 = 0 := by omega
    have hzero' : a.toNat * 65536 / 64 % 64 = 0 := by omega
    simp only [UInt8.toNat_zero, Nat.zero_mul, Nat.add_zero, hzero, hzero'] at h1 h2 h3 h4 hbytes
    rw [encode, decode, if_pos ⟨rfl, rfl⟩, if_pos rfl, bits_letter _ h1, bits_letter _ h2]
    exact congrArg (fun front => some (front.take 1)) hbytes
  | case4 => rfl

example : encode [77, 97, 110, 77, 97] = [84, 87, 70, 117, 84, 87, 69, 61] := by decide

/-- **An encoding has no blanks or line breaks.** -/
theorem mem_encode {s : List UInt8} {b : UInt8} (h : b ∈ encode s) : 43 ≤ b ∧ b ≤ 122 := by
  have hpad : 43 ≤ pad ∧ pad ≤ 122 := by decide
  induction s using encode.induct with
  | case1 a c d s ih =>
    obtain ⟨h1, h2, h3, h4⟩ := bits_lt a c d
    rw [encode] at h
    simp only [List.mem_cons] at h
    rcases h with rfl | rfl | rfl | rfl | h
    · exact letter_bounds _ h1
    · exact letter_bounds _ h2
    · exact letter_bounds _ h3
    · exact letter_bounds _ h4
    · exact ih h
  | case2 a c =>
    obtain ⟨h1, h2, h3, h4⟩ := bits_lt a c 0
    simp only [UInt8.toNat_zero, Nat.add_zero] at h1 h2 h3 h4
    rw [encode] at h
    simp only [List.mem_cons, List.not_mem_nil, or_false] at h
    rcases h with rfl | rfl | rfl | rfl
    · exact letter_bounds _ h1
    · exact letter_bounds _ h2
    · exact letter_bounds _ h3
    · exact hpad
  | case3 a =>
    obtain ⟨h1, h2, h3, h4⟩ := bits_lt a 0 0
    simp only [UInt8.toNat_zero, Nat.zero_mul, Nat.add_zero] at h1 h2 h3 h4
    rw [encode] at h
    simp only [List.mem_cons, List.not_mem_nil, or_false] at h
    rcases h with rfl | rfl | rfl | rfl
    · exact letter_bounds _ h1
    · exact letter_bounds _ h2
    · exact hpad
    · exact hpad
  | case4 => cases h

end GpsBase.Lib.Base64
