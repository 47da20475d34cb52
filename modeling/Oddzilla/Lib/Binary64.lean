import Mathlib.Algebra.Order.Floor.Ring
import Mathlib.Data.Int.Log
import Mathlib.Data.Rat.Floor
import Mathlib.Tactic

/-!
# Rounding to binary64

The double next to a rational number, ties to the even one, for numbers that neither
overflow nor underflow.  What is proved of a computation in doubles rests on little:
rounding is monotone, a double rounds to itself, and the error is at most one part in
`2 ^ 53`.
-/

namespace Binary64

variable {x y : ℚ}

/-! ## The nearest integer -/

/-- The nearest integer; of two the even one. -/
def roundEven (x : ℚ) : ℤ :=
  if x - ⌊x⌋ < 1 / 2 then ⌊x⌋
  else if 1 / 2 < x - ⌊x⌋ then ⌊x⌋ + 1
  else if Even ⌊x⌋ then ⌊x⌋
  else ⌊x⌋ + 1

theorem floor_le_roundEven (x : ℚ) : ⌊x⌋ ≤ roundEven x := by
  unfold roundEven
  split_ifs <;> omega

theorem roundEven_le_floor_add_one (x : ℚ) : roundEven x ≤ ⌊x⌋ + 1 := by
  unfold roundEven
  split_ifs <;> omega

theorem roundEven_intCast (k : ℤ) : roundEven k = k := by
  unfold roundEven
  rw [Int.floor_intCast, sub_self, if_pos (by norm_num)]

theorem roundEven_mono : Monotone roundEven := by
  intro x y h
  rcases (Int.floor_le_floor h).lt_or_eq with hlt | heq
  · -- an integer lies between them
    calc roundEven x ≤ ⌊x⌋ + 1 := roundEven_le_floor_add_one x
      _ ≤ ⌊y⌋ := hlt
      _ ≤ roundEven y := floor_le_roundEven y
  · have hfract : x - ⌊x⌋ ≤ y - ⌊y⌋ := by
      rw [heq]
      linarith
    unfold roundEven
    rw [heq] at hfract ⊢
    split_ifs <;> first | omega | linarith

theorem abs_roundEven_sub_le (x : ℚ) : |(roundEven x : ℚ) - x| ≤ 1 / 2 := by
  have hlo := Int.floor_le x
  have hhi := Int.lt_floor_add_one x
  rw [abs_le]
  unfold roundEven
  split_ifs <;> push_cast <;> constructor <;> linarith

theorem roundEven_neg (x : ℚ) : roundEven (-x) = -roundEven x := by
  have hlo := Int.floor_le x
  have hhi := Int.lt_floor_add_one x
  by_cases hint : x = ⌊x⌋
  · rw [hint, ← Int.cast_neg, roundEven_intCast, roundEven_intCast]
  · have hlt : (⌊x⌋ : ℚ) < x := lt_of_le_of_ne hlo (Ne.symm hint)
    have hfloor : ⌊-x⌋ = -⌊x⌋ - 1 := by
      rw [Int.floor_eq_iff]
      push_cast
      constructor <;> linarith
    have heven : Even (-⌊x⌋ - 1) ↔ ¬ Even ⌊x⌋ := by
      rw [Int.even_sub_one, even_neg]
    unfold roundEven
    rw [hfloor]
    push_cast
    by_cases hhalf : x - ⌊x⌋ = 1 / 2
    · -- a tie: one of the two floors is even
      rw [if_neg (by linarith), if_neg (by linarith)]
      by_cases he : Even ⌊x⌋
      · rw [if_neg (fun h => heven.mp h he), if_neg (by linarith), if_neg (by linarith), if_pos he]
        ring
      · rw [if_pos (heven.mpr he), if_neg (by linarith), if_neg (by linarith), if_neg he]
        ring
    · rcases lt_or_gt_of_ne hhalf with h | h
      · rw [if_neg (by linarith), if_pos (by linarith), if_pos (by linarith)]
        ring
      · rw [if_pos (by linarith), if_neg (by linarith), if_pos (by linarith)]
        ring

/-! ## The nearest double -/

/-- The place of the leading bit. -/
def exponent (x : ℚ) : ℤ := Int.log 2 |x|

/-- The unit in the last of the 53 places. -/
def ulp (x : ℚ) : ℚ := 2 ^ (exponent x - 52)

def nearest (x : ℚ) : ℚ := roundEven (x / ulp x) * ulp x

/-- A number of at most 53 places. -/
def Representable (x : ℚ) : Prop := ∃ m e : ℤ, |m| ≤ 2 ^ 53 ∧ x = m * 2 ^ e

theorem ulp_pos (x : ℚ) : 0 < ulp x := zpow_pos (by norm_num) _

theorem nearest_neg (x : ℚ) : nearest (-x) = -nearest x := by
  have hulp : ulp (-x) = ulp x := by
    unfold ulp exponent
    rw [abs_neg]
  unfold nearest
  rw [hulp, neg_div, roundEven_neg]
  push_cast
  ring

@[simp] theorem nearest_zero : nearest 0 = 0 := by
  unfold nearest
  rw [zero_div, show (0 : ℚ) = ((0 : ℤ) : ℚ) from rfl, roundEven_intCast, Int.cast_zero, zero_mul]

theorem zpow_exponent_le (hx : x ≠ 0) : 2 ^ exponent x ≤ |x| :=
  Int.zpow_log_le_self (b := 2) (by norm_num) (abs_pos.mpr hx)

theorem lt_zpow_exponent (x : ℚ) : |x| < 2 ^ (exponent x + 1) :=
  Int.lt_zpow_succ_log_self (b := 2) (by norm_num) |x|

theorem zpow_eq_mul_ulp (x : ℚ) (n : ℤ) : (2 : ℚ) ^ (exponent x + n) = 2 ^ (n + 52) * ulp x := by
  unfold ulp
  rw [← zpow_add₀ (by norm_num)]
  congr 1
  ring

/-- The mantissa of a positive number. -/
theorem mantissa_mem (hx : 0 < x) : 2 ^ 52 ≤ x / ulp x ∧ x / ulp x < 2 ^ 53 := by
  have hlo := zpow_exponent_le hx.ne'
  have hhi := lt_zpow_exponent x
  have hexp : (2 : ℚ) ^ exponent x = 2 ^ 52 * ulp x := by
    have h := zpow_eq_mul_ulp x 0
    rw [add_zero, zero_add] at h
    exact_mod_cast h
  rw [abs_of_pos hx] at hlo hhi
  rw [le_div_iff₀ (ulp_pos x), div_lt_iff₀ (ulp_pos x)]
  refine ⟨hexp ▸ hlo, hhi.trans_eq ?_⟩
  exact_mod_cast zpow_eq_mul_ulp x 1

theorem roundEven_mantissa (hx : 0 < x) :
    2 ^ 52 ≤ roundEven (x / ulp x) ∧ roundEven (x / ulp x) ≤ 2 ^ 53 := by
  obtain ⟨hlo, hhi⟩ := mantissa_mem hx
  have hlo' := roundEven_mono (show ((2 ^ 52 : ℤ) : ℚ) ≤ x / ulp x by exact_mod_cast hlo)
  have hhi' := roundEven_mono (show x / ulp x ≤ ((2 ^ 53 : ℤ) : ℚ) by exact_mod_cast hhi.le)
  rw [roundEven_intCast] at hlo' hhi'
  exact ⟨hlo', hhi'⟩

/-- A positive number is rounded within its binade. -/
theorem nearest_mem (hx : 0 < x) : 2 ^ exponent x ≤ nearest x ∧ nearest x ≤ 2 ^ (exponent x + 1) := by
  obtain ⟨hlo, hhi⟩ := roundEven_mantissa hx
  have hexp := zpow_eq_mul_ulp x 0
  have hexp' := zpow_eq_mul_ulp x 1
  rw [add_zero, zero_add] at hexp
  unfold nearest
  rw [hexp, hexp']
  constructor
  · exact mul_le_mul_of_nonneg_right (by exact_mod_cast hlo) (ulp_pos x).le
  · exact mul_le_mul_of_nonneg_right (by exact_mod_cast hhi) (ulp_pos x).le

theorem nearest_pos (hx : 0 < x) : 0 < nearest x :=
  (zpow_pos (by norm_num) _).trans_le (nearest_mem hx).1

theorem nearest_mono_of_pos (hx : 0 < x) (h : x ≤ y) : nearest x ≤ nearest y := by
  have hexp : exponent x ≤ exponent y := by
    unfold exponent
    rw [abs_of_pos hx, abs_of_pos (hx.trans_le h)]
    exact Int.log_mono_right hx h
  rcases hexp.lt_or_eq with hlt | heq
  · -- a power of two lies between them
    calc nearest x ≤ 2 ^ (exponent x + 1) := (nearest_mem hx).2
      _ ≤ 2 ^ exponent y := zpow_le_zpow_right₀ (by norm_num) hlt
      _ ≤ nearest y := (nearest_mem (hx.trans_le h)).1
  · have hulp : ulp x = ulp y := by
      unfold ulp
      rw [heq]
    unfold nearest
    rw [hulp]
    refine mul_le_mul_of_nonneg_right ?_ (ulp_pos y).le
    exact_mod_cast roundEven_mono (div_le_div_of_nonneg_right h (ulp_pos y).le)

theorem nearest_mono : Monotone nearest := by
  intro x y h
  rcases lt_trichotomy 0 x with hx | rfl | hx
  · exact nearest_mono_of_pos hx h
  · rw [nearest_zero]
    rcases h.eq_or_lt with rfl | hy
    · exact nearest_zero.ge
    · exact (nearest_pos hy).le
  · have hneg : 0 < nearest (-x) := nearest_pos (neg_pos.mpr hx)
    rcases lt_or_ge y 0 with hy | hy
    · have hle := nearest_mono_of_pos (neg_pos.mpr hy) (neg_le_neg h)
      rw [nearest_neg, nearest_neg] at hle
      exact neg_le_neg_iff.mp hle
    · rw [nearest_neg] at hneg
      refine (neg_pos.mp hneg).le.trans ?_
      rcases hy.eq_or_lt with rfl | hy
      · exact nearest_zero.ge
      · exact (nearest_pos hy).le

/-! ## Doubles -/

theorem Representable.nearest (h : Representable x) : nearest x = x := by
  obtain ⟨m, e, hm, rfl⟩ := h
  rcases eq_or_ne m 0 with rfl | hne
  · rw [Int.cast_zero, zero_mul, nearest_zero]
  have hx : (m : ℚ) * 2 ^ e ≠ 0 := mul_ne_zero (Int.cast_ne_zero.mpr hne) (zpow_ne_zero _ (by norm_num))
  -- the mantissa over the unit is a whole number
  obtain ⟨k, hk⟩ : ∃ k : ℤ, (m : ℚ) * 2 ^ e / ulp (m * 2 ^ e) = k := by
    have hquot : (m : ℚ) * 2 ^ e / ulp (m * 2 ^ e) = m * 2 ^ (e - (exponent (m * 2 ^ e) - 52)) := by
      unfold ulp
      rw [zpow_sub₀ (by norm_num) e, mul_div_assoc]
    have habs : |(m : ℚ) * 2 ^ e| = |m| * 2 ^ e := by
      rw [abs_mul, abs_of_pos (zpow_pos (by norm_num : (0 : ℚ) < 2) e), Int.cast_abs]
    have hle := zpow_exponent_le hx
    rw [habs] at hle
    rw [hquot]
    generalize exponent ((m : ℚ) * 2 ^ e) = E at hle ⊢
    rcases le_or_gt (E - 52) e with hE | hE
    · obtain ⟨n, hn⟩ := Int.eq_ofNat_of_zero_le (sub_nonneg.mpr hE)
      exact ⟨m * 2 ^ n, by rw [hn]; push_cast; norm_cast⟩
    · -- only 2 ^ 53 itself has another place
      have hpow : (2 : ℚ) ^ E ≤ 2 ^ (53 + e) := by
        refine hle.trans ?_
        rw [zpow_add₀ (by norm_num)]
        refine mul_le_mul_of_nonneg_right ?_ (zpow_pos (by norm_num) _).le
        exact_mod_cast hm
      have hE' : E ≤ 53 + e := (zpow_le_zpow_iff_right₀ (by norm_num)).mp hpow
      obtain rfl : E = 53 + e := by omega
      have hbig : (2 : ℚ) ^ (53 : ℤ) ≤ |m| := by
        rw [zpow_add₀ (by norm_num)] at hle
        exact le_of_mul_le_mul_right hle (zpow_pos (by norm_num) _)
      have hbig' : (2 ^ 53 : ℤ) ≤ |m| := by exact_mod_cast hbig
      have hval : |m| = 2 ^ 53 := le_antisymm hm hbig'
      have hhalf : ∃ k : ℤ, m = 2 * k := by
        rcases abs_eq (by norm_num : (0 : ℤ) ≤ 2 ^ 53) |>.mp hval with h | h
        · exact ⟨2 ^ 52, by rw [h]; norm_num⟩
        · exact ⟨-2 ^ 52, by rw [h]; norm_num⟩
      obtain ⟨k, hk⟩ := hhalf
      refine ⟨k, ?_⟩
      rw [hk, show e - (53 + e - 52) = -1 by ring, zpow_neg_one]
      push_cast
      ring
  unfold Binary64.nearest
  rw [hk, roundEven_intCast, ← hk, div_mul_cancel₀ _ (ulp_pos _).ne']

theorem representable_nearest (x : ℚ) : Representable (nearest x) := by
  rcases eq_or_ne x 0 with rfl | hx
  · exact ⟨0, 0, by norm_num, by simp⟩
  refine ⟨roundEven (x / ulp x), exponent x - 52, ?_, rfl⟩
  have hbound : ∀ y : ℚ, 0 < y → |roundEven (y / ulp y)| ≤ 2 ^ 53 := by
    intro y hy
    obtain ⟨hlo, hhi⟩ := roundEven_mantissa hy
    rwa [abs_of_nonneg (le_trans (by norm_num) hlo)]
  rcases lt_or_gt_of_ne hx with hneg | hpos
  · have h := hbound (-x) (neg_pos.mpr hneg)
    have hulp : ulp (-x) = ulp x := by
      unfold ulp exponent
      rw [abs_neg]
    rwa [hulp, neg_div, roundEven_neg, abs_neg] at h
  · exact hbound x hpos

@[simp] theorem nearest_nearest (x : ℚ) : nearest (nearest x) = nearest x := (representable_nearest x).nearest

theorem representable_int {k : ℤ} (h : |k| ≤ 2 ^ 53) : Representable k := ⟨k, 0, h, by simp⟩

theorem Representable.two_mul (h : Representable x) : Representable (2 * x) := by
  obtain ⟨m, e, hm, rfl⟩ := h
  refine ⟨m, e + 1, hm, ?_⟩
  rw [zpow_add_one₀ (by norm_num)]
  ring

/-- Taking 1 off loses nothing. -/
theorem Representable.sub_one (h : Representable x) (h1 : 1 ≤ x) (hmax : x ≤ 2 ^ 53) :
    Representable (x - 1) := by
  obtain ⟨m, e, hm, rfl⟩ := h
  rcases le_or_gt 0 e with he | he
  · obtain ⟨n, rfl⟩ := Int.eq_ofNat_of_zero_le he
    have hint : (m : ℚ) * 2 ^ ((n : ℕ) : ℤ) - 1 = ((m * 2 ^ n - 1 : ℤ) : ℚ) := by
      push_cast
      norm_cast
    rw [hint]
    have hlo : (0 : ℚ) ≤ ((m * 2 ^ n - 1 : ℤ) : ℚ) := hint ▸ sub_nonneg.mpr h1
    have hhi : ((m * 2 ^ n - 1 : ℤ) : ℚ) ≤ 2 ^ 53 := by
      rw [← hint]
      linarith
    refine representable_int ?_
    rw [abs_of_nonneg (by exact_mod_cast hlo)]
    exact_mod_cast hhi
  · obtain ⟨n, hn⟩ := Int.eq_ofNat_of_zero_le (neg_nonneg.mpr he.le)
    have hpos : (0 : ℚ) < 2 ^ e := zpow_pos (by norm_num) e
    have hunit : (2 : ℚ) ^ n * 2 ^ e = 1 := by
      rw [show e = -(n : ℤ) by omega, zpow_neg, zpow_natCast]
      exact mul_inv_cancel₀ (by positivity)
    have heq : (m : ℚ) * 2 ^ e - 1 = ((m - 2 ^ n : ℤ) : ℚ) * 2 ^ e := by
      push_cast
      rw [sub_mul, hunit]
    refine ⟨m - 2 ^ n, e, ?_, heq⟩
    have hnn : (0 : ℚ) ≤ ((m - 2 ^ n : ℤ) : ℚ) := by
      refine nonneg_of_mul_nonneg_left ?_ hpos
      rw [← heq]
      linarith
    have hnn' : 0 ≤ m - 2 ^ n := by exact_mod_cast hnn
    have htwo : (0 : ℤ) < 2 ^ n := by positivity
    rw [abs_of_nonneg hnn']
    have := le_abs_self m
    omega

/-! ## The error -/

theorem abs_nearest_sub_le (x : ℚ) : |nearest x - x| ≤ |x| / 2 ^ 53 := by
  rcases eq_or_ne x 0 with rfl | hx
  · simp
  have hulp := ulp_pos x
  have hround : nearest x - x = (roundEven (x / ulp x) - x / ulp x) * ulp x := by
    unfold nearest
    rw [sub_mul, div_mul_cancel₀ _ hulp.ne']
  have hexp : ulp x * 2 ^ 52 ≤ |x| := by
    have h := zpow_eq_mul_ulp x 0
    have hle := zpow_exponent_le hx
    rw [add_zero, zero_add] at h
    rw [h] at hle
    rw [mul_comm]
    exact_mod_cast hle
  rw [hround, abs_mul, abs_of_pos hulp, le_div_iff₀ (by norm_num)]
  calc |(roundEven (x / ulp x) : ℚ) - x / ulp x| * ulp x * 2 ^ 53
      ≤ 1 / 2 * ulp x * 2 ^ 53 := by
        gcongr
        exact abs_roundEven_sub_le _
    _ = ulp x * 2 ^ 52 := by ring
    _ ≤ |x| := hexp

end Binary64
