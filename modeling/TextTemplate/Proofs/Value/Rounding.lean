import TextTemplate.Value.Scientific
import Mathlib

namespace TextTemplate.Scientific

/-- That no number of at most sixteen digits is nearer to `x` than `v` is. If another one is as near,
then the digits `m` of `v` are those of an even number. -/
structure IsNearest (x v : ℚ) (m : ℕ) : Prop where
  le : ∀ n k : ℤ, |n| < 10 ^ 16 → |x - v| ≤ |x - n * 10 ^ k|
  even : ∀ n k : ℤ, |n| < 10 ^ 16 → n * 10 ^ k ≠ v → |x - n * 10 ^ k| = |x - v| → Even m

theorem IsNearest.neg {x v : ℚ} {m : ℕ} (h : IsNearest x v m) : IsNearest (-x) (-v) m := by
  have hneg (w : ℚ) : |-x - w| = |x - -w| := by
    rw [← abs_neg]
    congr 1
    ring
  have hpow (n k : ℤ) : -((n : ℚ) * 10 ^ k) = (-n : ℤ) * 10 ^ k := by
    push_cast
    ring
  refine ⟨fun n k hn => ?_, fun n k hn hne he => ?_⟩
  · rw [hneg, hneg, hpow, neg_neg]
    exact h.le (-n) k (by rwa [abs_neg])
  · rw [hneg, hneg, hpow, neg_neg] at he
    refine h.even (-n) k (by rwa [abs_neg]) ?_ he
    rw [← hpow]
    rintro rfl
    exact hne (neg_neg _).symm

theorem isNearest_zero : IsNearest 0 0 0 where
  le n k _ := by
    rw [sub_self, abs_zero]
    exact abs_nonneg _
  even _ _ _ _ _ := Even.zero

theorem div_eq_add (n : ℕ) {d : ℕ} (hd : 0 < d) :
    (n : ℚ) / d = (n / d : ℕ) + ((n % d : ℕ) : ℚ) / d := by
  have hd' : (d : ℚ) ≠ 0 := by exact_mod_cast hd.ne'
  have hn : (n : ℚ) = d * (n / d : ℕ) + (n % d : ℕ) := by exact_mod_cast (Nat.div_add_mod n d).symm
  rw [hn, add_div, mul_div_cancel_left₀ _ hd']

theorem abs_add_sub_int {q : ℕ} {t : ℚ} (h0 : 0 ≤ t) (h1 : t < 1) (z : ℤ) :
    (z : ℚ) ≤ q ∧ |q + t - z| = (q - z) + t ∨ (q : ℚ) + 1 ≤ z ∧ |q + t - z| = (z - (q + 1)) + (1 - t) := by
  obtain hz | hz : z ≤ q ∨ (q + 1 : ℤ) ≤ z := by omega
  · have hz' : (z : ℚ) ≤ q := by exact_mod_cast hz
    refine .inl ⟨hz', ?_⟩
    rw [abs_of_nonneg (by linarith)]
    ring
  · have hz' : (q : ℚ) + 1 ≤ z := by exact_mod_cast hz
    refine .inr ⟨hz', ?_⟩
    rw [abs_of_nonpos (by linarith)]
    ring

/-- That `r` is the whole number nearest to `x`, or the even one of two that are as near. -/
def IsRounded (x : ℚ) (r : ℕ) : Prop :=
  ∀ z : ℤ, |x - r| ≤ |x - z| ∧ (z ≠ r → |x - z| = |x - r| → Even r)

section

variable {q : ℕ} {t : ℚ}

theorem isRounded_down (h0 : 0 ≤ t) (ht : t < 1 / 2) : IsRounded (q + t) q := by
  intro z
  have hq : |q + t - q| = t := by rw [add_sub_cancel_left, abs_of_nonneg h0]
  rw [hq]
  obtain ⟨hz, he⟩ | ⟨hz, he⟩ := abs_add_sub_int h0 (by linarith) z
  · rw [he]
    refine ⟨by linarith, fun hne heq => absurd ?_ hne⟩
    exact_mod_cast (by linarith : (z : ℚ) = q)
  · rw [he]
    exact ⟨by linarith, fun _ heq => by linarith⟩

theorem isRounded_up (ht : 1 / 2 < t) (h1 : t < 1) : IsRounded (q + t) (q + 1) := by
  intro z
  have hq : |q + t - (q + 1 : ℕ)| = 1 - t := by
    push_cast
    rw [abs_of_nonpos (by linarith)]
    ring
  rw [hq]
  obtain ⟨hz, he⟩ | ⟨hz, he⟩ := abs_add_sub_int (by linarith) h1 z
  · rw [he]
    exact ⟨by linarith, fun _ heq => by linarith⟩
  · rw [he]
    refine ⟨by linarith, fun hne heq => absurd ?_ hne⟩
    exact_mod_cast (by linarith : (z : ℚ) = q + 1)

theorem isRounded_even (ht : t = 1 / 2) : IsRounded (q + t) (q + q % 2) := by
  intro z
  have hq : |q + t - (q + q % 2 : ℕ)| = 1 / 2 := by
    obtain hm | hm := Nat.mod_two_eq_zero_or_one q
    · rw [hm, ht, Nat.add_zero, add_sub_cancel_left]
      norm_num
    · rw [hm, ht]
      push_cast
      rw [abs_of_nonpos (by linarith)]
      ring
  rw [hq]
  refine ⟨?_, fun _ _ => Nat.even_iff.2 (by omega)⟩
  obtain ⟨hz, he⟩ | ⟨hz, he⟩ := abs_add_sub_int (q := q) (t := t) (by linarith) (by linarith) z
  · linarith
  · linarith

end

theorem isRounded_roundDiv (n : ℕ) {d : ℕ} (hd : 0 < d) : IsRounded (n / d) (roundDiv n d) := by
  have hd' : (0 : ℚ) < d := by exact_mod_cast hd
  rw [div_eq_add n hd, roundDiv]
  split
  · next hc =>
    apply isRounded_down (by positivity)
    rw [div_lt_div_iff₀ hd' two_pos]
    have := Nat.compare_eq_lt.1 hc
    exact_mod_cast (by omega : n % d * 2 < 1 * d)
  · next hc =>
    apply isRounded_even
    rw [div_eq_div_iff hd'.ne' two_ne_zero]
    have := Nat.compare_eq_eq.1 hc
    exact_mod_cast (by omega : n % d * 2 = 1 * d)
  · next hc =>
    apply isRounded_up
    · rw [div_lt_div_iff₀ two_pos hd']
      have := Nat.compare_eq_gt.1 hc
      exact_mod_cast (by omega : 1 * d < n % d * 2)
    · exact (div_lt_one hd').2 (by exact_mod_cast Nat.mod_lt n hd)

theorem IsRounded.bounds {x : ℚ} {r : ℕ} (h : IsRounded x r) {a b : ℕ} (ha : a ≤ x) (hb : x ≤ b) :
    a ≤ r ∧ r ≤ b := by
  have hlow := (h a).1
  have hhigh := (h b).1
  rw [Int.cast_natCast, abs_of_nonneg (sub_nonneg.2 ha)] at hlow
  rw [Int.cast_natCast, abs_of_nonpos (sub_nonpos.2 hb)] at hhigh
  have hl := le_abs_self (x - r)
  have hh := neg_le_abs (x - r)
  constructor
  · exact_mod_cast (by linarith : (a : ℚ) ≤ r)
  · exact_mod_cast (by linarith : (r : ℚ) ≤ b)

/-- A number of sixteen digits at most is a multiple of a smaller power of ten, or else it is small. -/
theorem multiple_or_small {n k : ℤ} (hn : |n| < 10 ^ 16) (l : ℤ) :
    (∃ z : ℤ, (n : ℚ) * 10 ^ k = z * 10 ^ l) ∨ (n : ℚ) * 10 ^ k < 10 ^ 15 * 10 ^ l := by
  obtain h | h : l ≤ k ∨ k ≤ l - 1 := by omega
  · refine .inl ⟨n * 10 ^ (k - l).toNat, ?_⟩
    have hk : (10 : ℚ) ^ k = 10 ^ (k - l).toNat * 10 ^ l := by
      rw [← zpow_natCast, ← zpow_add₀ (by norm_num)]
      congr 1
      omega
    rw [hk]
    push_cast
    ring
  · right
    have hn' : (n : ℚ) < 10 ^ 16 := by exact_mod_cast (le_abs_self n).trans_lt hn
    calc (n : ℚ) * 10 ^ k < 10 ^ 16 * 10 ^ k := by gcongr
      _ ≤ 10 ^ 16 * 10 ^ (l - 1) := by
        gcongr
        norm_num
      _ = 10 ^ 15 * 10 ^ l := by
        rw [zpow_sub_one₀ (by norm_num)]
        ring

/-- Rounding at the sixteenth digit leads to the nearest of all numbers with as many digits. -/
theorem IsRounded.isNearest {y : ℚ} {r : ℕ} (h : IsRounded y r) (hy : 10 ^ 15 ≤ y) (k : ℤ) :
    IsNearest (y * 10 ^ k) (r * 10 ^ k) r := by
  have hk : (0 : ℚ) < 10 ^ k := by positivity
  have hdist (w : ℚ) : |y * 10 ^ k - w * 10 ^ k| = |y - w| * 10 ^ k := by
    rw [← sub_mul, abs_mul, abs_of_pos hk]
  -- what has its sixteenth digit below that of `y` lies on the other side of a multiple of `10 ^ k`
  have hfar {w : ℚ} (hw : w < 10 ^ 15 * 10 ^ k) : |y * 10 ^ k - r * 10 ^ k| < |y * 10 ^ k - w| := by
    have hedge := (h (10 ^ 15)).1
    rw [Int.cast_pow, Int.cast_ofNat] at hedge
    calc |y * 10 ^ k - r * 10 ^ k| = |y - r| * 10 ^ k := hdist r
      _ ≤ |y - 10 ^ 15| * 10 ^ k := by gcongr
      _ = y * 10 ^ k - 10 ^ 15 * 10 ^ k := by
        rw [abs_of_nonneg (by linarith)]
        ring
      _ < y * 10 ^ k - w := by linarith
      _ ≤ |y * 10 ^ k - w| := le_abs_self _
  constructor
  · intro n l hn
    obtain ⟨z, hz⟩ | hw := multiple_or_small hn k
    · rw [hz, hdist, hdist]
      have := (h z).1
      gcongr
    · exact (hfar hw).le
  · intro n l hn hne he
    obtain ⟨z, hz⟩ | hw := multiple_or_small hn k
    · rw [hz, hdist, hdist] at he
      rw [hz] at hne
      refine (h z).2 ?_ (mul_right_cancel₀ hk.ne' he)
      rintro rfl
      exact hne (by rw [Int.cast_natCast])
    · exact absurd he (hfar hw).ne'

theorem digitCount_eq_log (n : ℕ) : digitCount n = Nat.log 10 n + 1 := by
  fun_induction digitCount n with
  | case1 n h => rw [Nat.log_of_lt h]
  | case2 n h ih => rw [ih, Nat.log_of_one_lt_of_le (by norm_num) (Nat.not_lt.1 h)]

theorem digitCount_pos (n : ℕ) : 0 < digitCount n := by
  rw [digitCount_eq_log]
  exact Nat.succ_pos _

theorem digitCount_le {n k : ℕ} (hk : 0 < k) (h : n < 2 ^ k) : digitCount n ≤ k := by
  rw [digitCount_eq_log]
  obtain rfl | hn := Nat.eq_zero_or_pos n
  · rw [Nat.log_zero_right]
    exact hk
  · exact Nat.log_lt_of_lt_pow hn.ne' (h.trans_le (Nat.pow_le_pow_left (by norm_num) k))

theorem natAbs_power_le {n d k l : ℕ} (hn : n < 2 ^ k) (hd : d < 2 ^ l) (hk : 0 < k) (hl : 0 < l) :
    (digits n d).2.natAbs ≤ k + l := by
  have hnc := digitCount_pos n
  have hdc := digitCount_pos d
  have hnk := digitCount_le hk hn
  have hdl := digitCount_le hl hd
  have hpower : leadingPower n d = (digitCount n : ℤ) - digitCount d ∨
      leadingPower n d = (digitCount n : ℤ) - digitCount d - 1 := by
    rw [leadingPower]
    dsimp only
    split
    · exact .inl rfl
    · exact .inr rfl
  rw [digits]
  split
  · exact Nat.zero_le _
  · dsimp only
    split
    · dsimp only
      omega
    · dsimp only
      omega

theorem zpow_eq_div {b : ℚ} (hb : b ≠ 0) (e : ℤ) : b ^ e = b ^ e.toNat / b ^ (-e).toNat := by
  rw [← zpow_natCast, ← zpow_natCast, ← zpow_sub₀ hb]
  congr 1
  omega

theorem scale_eq (n d : ℕ) (power : ℤ) :
    ((scale n d power).1 : ℚ) / (scale n d power).2 = n / d * 10 ^ power := by
  rw [zpow_eq_div (by norm_num), scale, Nat.pow_eq, Nat.pow_eq]
  push_cast
  rw [div_mul_div_comm]

theorem scale_pos (n : ℕ) {d : ℕ} (hd : 0 < d) (power : ℤ) : 0 < (scale n d power).2 := by
  rw [scale]
  exact Nat.mul_pos hd (Nat.pow_pos (by norm_num))

section

variable {n d : ℕ}

theorem digitCount_bounds (hn : 0 < n) :
    (10 : ℚ) ^ ((digitCount n : ℤ) - 1) ≤ n ∧ (n : ℚ) < 10 ^ (digitCount n : ℤ) := by
  rw [digitCount_eq_log, Nat.cast_add, Nat.cast_one, add_sub_cancel_right]
  have hlow := Nat.pow_log_le_self 10 hn.ne'
  have hhigh := Nat.lt_pow_succ_log_self (by norm_num : 1 < 10) n
  constructor
  · rw [zpow_natCast]
    exact_mod_cast hlow
  · exact_mod_cast hhigh

/-- The numbers of digits tell the power of ten of a fraction, up to one. -/
theorem guess_bounds (hn : 0 < n) (hd : 0 < d) :
    (10 : ℚ) ^ ((digitCount n : ℤ) - digitCount d - 1) ≤ n / d ∧
      (n / d : ℚ) < 10 ^ ((digitCount n : ℤ) - digitCount d + 1) := by
  obtain ⟨hnl, hnu⟩ := digitCount_bounds hn
  obtain ⟨hdl, hdu⟩ := digitCount_bounds hd
  have hd' : (0 : ℚ) < d := by exact_mod_cast hd
  have hlow : (digitCount n : ℤ) - digitCount d - 1 = ((digitCount n : ℤ) - 1) - digitCount d := by ring
  have hhigh : (digitCount n : ℤ) - digitCount d + 1 = digitCount n - ((digitCount d : ℤ) - 1) := by ring
  constructor
  · rw [hlow, zpow_sub₀ (by norm_num)]
    gcongr
  · rw [hhigh, zpow_sub₀ (by norm_num)]
    gcongr

theorem scale_le_iff (hd : 0 < d) (power : ℤ) :
    (scale n d (-power)).2 ≤ (scale n d (-power)).1 ↔ (10 : ℚ) ^ power ≤ n / d := by
  have hpos : (0 : ℚ) < (scale n d (-power)).2 := by exact_mod_cast scale_pos n hd (-power)
  rw [← Nat.cast_le (α := ℚ), ← one_le_div hpos, scale_eq, zpow_neg, ← div_eq_mul_inv,
    one_le_div (by positivity)]

theorem leadingPower_bounds (hn : 0 < n) (hd : 0 < d) :
    (10 : ℚ) ^ leadingPower n d ≤ n / d ∧ (n / d : ℚ) < 10 ^ (leadingPower n d + 1) := by
  obtain ⟨hl, hu⟩ := guess_bounds hn hd
  rw [leadingPower]
  dsimp only
  split
  · next h =>
    exact ⟨(scale_le_iff hd _).1 h, hu⟩
  · next h =>
    rw [scale_le_iff hd, not_le] at h
    rw [sub_add_cancel]
    exact ⟨hl, h⟩

theorem scaled_bounds (hn : 0 < n) (hd : 0 < d) :
    (10 : ℚ) ^ 15 ≤ n / d * 10 ^ (15 - leadingPower n d) ∧
      (n / d : ℚ) * 10 ^ (15 - leadingPower n d) < 10 ^ 16 := by
  obtain ⟨hl, hu⟩ := leadingPower_bounds hn hd
  have hscaled (k : ℤ) :
      (10 : ℚ) ^ (leadingPower n d + k) * 10 ^ (15 - leadingPower n d) = 10 ^ (15 + k) := by
    rw [← zpow_add₀ (by norm_num)]
    congr 1
    ring
  constructor
  · calc (10 : ℚ) ^ 15 = 10 ^ (leadingPower n d + 0) * 10 ^ (15 - leadingPower n d) := (hscaled 0).symm
      _ ≤ n / d * 10 ^ (15 - leadingPower n d) := by
        rw [add_zero]
        gcongr
  · calc (n / d : ℚ) * 10 ^ (15 - leadingPower n d) <
          10 ^ (leadingPower n d + 1) * 10 ^ (15 - leadingPower n d) := by gcongr
      _ = 10 ^ 16 := hscaled 1

/-- Where rounding leads to one digit more, the same number has its digits at the next power of ten. -/
theorem IsNearest.carry {x : ℚ} {k : ℤ} (h : IsNearest x ((10 ^ 16 : ℕ) * 10 ^ k) (10 ^ 16)) :
    IsNearest x ((10 ^ 15 : ℕ) * 10 ^ (k + 1)) (10 ^ 15) := by
  have hv : ((10 ^ 15 : ℕ) : ℚ) * 10 ^ (k + 1) = (10 ^ 16 : ℕ) * 10 ^ k := by
    rw [zpow_add_one₀ (by norm_num)]
    push_cast
    ring
  rw [hv]
  exact ⟨h.le, fun _ _ _ _ _ => Nat.even_pow.2 ⟨by decide, by norm_num⟩⟩

theorem digits_of_pos (hn : 0 < n) (hd : 0 < d) :
    10 ^ 15 ≤ (digits n d).1 ∧ (digits n d).1 < 10 ^ 16 ∧
      IsNearest (n / d) ((digits n d).1 * 10 ^ ((digits n d).2 - 15)) (digits n d).1 := by
  let power := leadingPower n d
  let r := roundDiv (scale n d (15 - power)).1 (scale n d (15 - power)).2
  have hdigits : digits n d = if r = 10 ^ 16 then (10 ^ 15, power + 1) else (r, power) := by
    rw [digits, if_neg hn.ne']
    rfl
  obtain ⟨hlow, hhigh⟩ := scaled_bounds hn hd
  have hr : IsRounded (n / d * 10 ^ (15 - power)) r := by
    rw [← scale_eq]
    exact isRounded_roundDiv _ (scale_pos n hd _)
  have hx : (n / d : ℚ) = n / d * 10 ^ (15 - power) * 10 ^ (power - 15) := by
    rw [mul_assoc, ← zpow_add₀ (by norm_num), sub_add_sub_cancel, sub_self, zpow_zero, mul_one]
  have hnear := hr.isNearest hlow (power - 15)
  rw [← hx] at hnear
  obtain ⟨hrl, hru⟩ : 10 ^ 15 ≤ r ∧ r ≤ 10 ^ 16 :=
    hr.bounds (by exact_mod_cast hlow) (by exact_mod_cast hhigh.le)
  rw [hdigits]
  -- rounding up may lead to a one with sixteen zeros
  by_cases hcarry : r = 10 ^ 16
  · rw [hcarry] at hnear
    rw [if_pos hcarry, add_sub_right_comm]
    exact ⟨le_rfl, by norm_num, hnear.carry⟩
  · rw [if_neg hcarry]
    exact ⟨hrl, lt_of_le_of_ne hru hcarry, hnear⟩

theorem digits_zero (d : ℕ) : digits 0 d = (0, 0) := rfl

theorem digits_lt_iff (hd : 0 < d) : (digits n d).1 < 10 ^ 15 ↔ n = 0 := by
  obtain rfl | hn := Nat.eq_zero_or_pos n
  · simp [digits_zero]
  · exact iff_of_false (not_lt.2 (digits_of_pos hn hd).1) hn.ne'

theorem digits_lt (hd : 0 < d) : (digits n d).1 < 10 ^ 16 := by
  obtain rfl | hn := Nat.eq_zero_or_pos n
  · simp [digits_zero]
  · exact (digits_of_pos hn hd).2.1

theorem digits_nearest (hd : 0 < d) :
    IsNearest (n / d) ((digits n d).1 * 10 ^ ((digits n d).2 - 15)) (digits n d).1 := by
  obtain rfl | hn := Nat.eq_zero_or_pos n
  · rw [digits_zero, Nat.cast_zero, zero_div, zero_mul]
    exact isNearest_zero
  · exact (digits_of_pos hn hd).2.2

end

end TextTemplate.Scientific
