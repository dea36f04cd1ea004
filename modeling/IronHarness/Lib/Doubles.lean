import Mathlib.Algebra.Group.Nat.Defs
import Mathlib.Data.Int.Order.Basic
import Mathlib.Data.Nat.Log

/-!
# Rounding to 53 bits

Binary numbers of 53 digits are counted in units of the least of them, so that they are integers and a sum or a
difference of two is one as well; `double` rounds such an integer to the nearest number that has 53 digits, and to the
even one of two that are as near.  Exponents are not bounded above.  Rounding is monotone, and less than doubles what it
rounds.
-/

namespace Doubles

/-- The integer nearest to `n / d`, the even one of two that are as near. -/
def halfEven (n d : Nat) : Nat :=
  if 2 * (n % d) < d then n / d else if d < 2 * (n % d) then n / d + 1 else n / d + n / d % 2

/-- The distance of the numbers of 53 digits around `n`. -/
def spacing (n : Nat) : Nat := 2 ^ (n.log2 - 52)

def doubleNat (n : Nat) : Nat := spacing n * halfEven n (spacing n)

def double : Int → Int
  | .ofNat n => doubleNat n
  | .negSucc n => -(doubleNat (n + 1) : Int)

/-! ### Rounding to an integer -/

private theorem halfEven_bounds (n d : Nat) : n / d ≤ halfEven n d ∧ halfEven n d ≤ n / d + 1 := by
  unfold halfEven
  split
  · omega
  · split <;> omega

private theorem halfEven_mono {n m : Nat} (d : Nat) (h : n ≤ m) : halfEven n d ≤ halfEven m d := by
  have hn := halfEven_bounds n d
  have hm := halfEven_bounds m d
  rcases Nat.lt_or_eq_of_le (Nat.div_le_div_right (c := d) h) with hlt | heq
  · omega
  · -- the same integer is below both, and the rest of the smaller one is not the larger
    have hrest : n % d ≤ m % d := by
      have hdn := Nat.div_add_mod n d
      have hdm := Nat.div_add_mod m d
      rw [heq] at hdn
      omega
    unfold halfEven
    rw [heq]
    split_ifs <;> omega

private theorem halfEven_mul (k : Nat) {d : Nat} (hd : 0 < d) : halfEven (d * k) d = k := by
  unfold halfEven
  rw [Nat.mul_mod_right, Nat.mul_div_cancel_left k hd, if_pos (by omega)]

private theorem halfEven_near (n : Nat) {d : Nat} (hd : 0 < d) : 2 * (d * halfEven n d) ≤ 2 * n + d := by
  have hsplit := Nat.div_add_mod n d
  have hlt := Nat.mod_lt n hd
  unfold halfEven
  split
  · omega
  · have hup : n / d + n / d % 2 ≤ n / d + 1 := by omega
    split
    · rw [Nat.mul_add]
      omega
    · have hle := Nat.mul_le_mul_left d hup
      rw [Nat.mul_add d _ 1] at hle
      omega

/-! ### Rounding to 53 digits -/

private theorem spacing_pos (n : Nat) : 0 < spacing n := Nat.two_pow_pos _

private theorem spacing_le {n : Nat} (h : n ≠ 0) : spacing n ≤ n :=
  (Nat.pow_le_pow_right (by decide) (Nat.sub_le _ _)).trans (Nat.log2_self_le h)

private theorem doubleNat_zero : doubleNat 0 = 0 := by decide

/-- Up to a power of two of at least 53 digits, a rounded number does not exceed it. -/
private theorem doubleNat_le_pow {n e : Nat} (hlog : n.log2 ≤ e + 52) (hspacing : spacing n = 2 ^ e) :
    doubleNat n ≤ 2 ^ (e + 53) := by
  have hn : n ≤ 2 ^ e * 2 ^ 53 := by
    rw [← Nat.pow_add]
    exact (Nat.lt_log2_self).le.trans (Nat.pow_le_pow_right (by decide) (by omega))
  have hround := halfEven_mono (2 ^ e) hn
  rw [halfEven_mul _ (Nat.two_pow_pos e)] at hround
  unfold doubleNat
  rw [hspacing, Nat.pow_add]
  exact Nat.mul_le_mul_left _ hround

/-- A power of two with as many digits is not above a rounded number. -/
private theorem pow_le_doubleNat {n e : Nat} (hn : n ≠ 0) (hlog : n.log2 = e + 52) : 2 ^ (e + 52) ≤ doubleNat n := by
  have hspacing : spacing n = 2 ^ e := by rw [spacing, hlog, Nat.add_sub_cancel]
  have hn : 2 ^ e * 2 ^ 52 ≤ n := by
    rw [← Nat.pow_add, ← hlog]
    exact Nat.log2_self_le hn
  have hround := halfEven_mono (2 ^ e) hn
  rw [halfEven_mul _ (Nat.two_pow_pos e)] at hround
  unfold doubleNat
  rw [hspacing, Nat.pow_add]
  exact Nat.mul_le_mul_left _ hround

private theorem doubleNat_mono {n m : Nat} (h : n ≤ m) : doubleNat n ≤ doubleNat m := by
  rcases Nat.eq_zero_or_pos n with rfl | hn
  · rw [doubleNat_zero]
    exact Nat.zero_le _
  have hlog : n.log2 ≤ m.log2 := (Nat.le_log2 (by omega)).2 ((Nat.log2_self_le (by omega)).trans h)
  by_cases hsame : n.log2 - 52 = m.log2 - 52
  · have hspacing : spacing n = spacing m := by rw [spacing, spacing, hsame]
    unfold doubleNat
    rw [hspacing]
    exact Nat.mul_le_mul_left _ (halfEven_mono _ h)
  · -- between the two there is a power of two, which is not rounded
    calc
      doubleNat n ≤ 2 ^ (n.log2 - 52 + 53) := doubleNat_le_pow (by omega) rfl
      _ ≤ 2 ^ (m.log2 - 52 + 52) := Nat.pow_le_pow_right (by decide) (by omega)
      _ ≤ doubleNat m := pow_le_doubleNat (by omega) (by omega)

/-- Rounding does not double a number. -/
theorem doubleNat_lt {n : Nat} (h : 0 < n) : doubleNat n < 2 * n := by
  have hnear := halfEven_near n (spacing_pos n)
  have hle := spacing_le (Nat.pos_iff_ne_zero.1 h)
  unfold doubleNat
  omega

/-! ### Signs -/

theorem double_zero : double 0 = 0 := by decide

private theorem double_nonpos_of_neg (k : Nat) : double (.negSucc k) ≤ 0 := by
  simp [double]

theorem double_mono {x y : Int} (h : x ≤ y) : double x ≤ double y := by
  cases x with
  | ofNat n =>
    cases y with
    | ofNat m => exact Int.ofNat_le.2 (doubleNat_mono (Int.ofNat_le.1 h))
    | negSucc m => exact absurd h (Int.not_le.2 (Int.lt_of_lt_of_le (Int.negSucc_lt_zero m) (Int.natCast_nonneg n)))
  | negSucc n =>
    cases y with
    | ofNat m => exact Int.le_trans (double_nonpos_of_neg n) (Int.natCast_nonneg _)
    | negSucc m => exact Int.neg_le_neg (Int.ofNat_le.2 (doubleNat_mono (by omega)))

/-- What is at most half of a number is not rounded up to it. -/
theorem double_lt_of_half {x y : Int} (hy : 0 < y) (h : x + x ≤ y) : double x < y := by
  cases x with
  | ofNat n =>
    rcases Nat.eq_zero_or_pos n with rfl | hn
    · exact Int.lt_of_le_of_lt (Int.le_of_eq double_zero) hy
    · have hlt := doubleNat_lt hn
      rw [Int.ofNat_eq_natCast] at h
      rw [double]
      omega
  | negSucc n => exact Int.lt_of_le_of_lt (double_nonpos_of_neg n) hy

end Doubles
