import Mathlib

/-!
# Fixed-point decimals

Rationals on a decimal grid, and whole amounts cut from them.  `OnGrid d x` says
that `x` has at most `d` decimals; `trunc d x` cuts a non-negative number to `d`
decimals.  A whole amount is the floor of a product of an integer and a grid
number, with a nudge smaller than the grid's step or without it.
-/

namespace Decimal

variable {d e : ℕ} {x y : ℚ}

/-- At most `d` decimals. -/
def OnGrid (d : ℕ) (x : ℚ) : Prop := ∃ n : ℤ, x = n / 10 ^ d

theorem pow_pos (d : ℕ) : (0 : ℚ) < 10 ^ d := by positivity

theorem onGrid_iff : OnGrid d x ↔ ∃ n : ℤ, x * 10 ^ d = n := by
  have hpos := pow_pos d
  unfold OnGrid
  refine exists_congr fun n => ?_
  rw [eq_div_iff hpos.ne']

theorem onGrid_int (n : ℤ) : OnGrid d (n : ℚ) := by
  rw [onGrid_iff]
  exact ⟨n * 10 ^ d, by push_cast; rfl⟩

instance (d : ℕ) (x : ℚ) : Decidable (OnGrid d x) :=
  decidable_of_iff (((⌊x * 10 ^ d⌋ : ℤ) : ℚ) = x * 10 ^ d) <| by
    rw [onGrid_iff]
    constructor
    · intro h
      exact ⟨_, h.symm⟩
    · intro h
      obtain ⟨n, hn⟩ := h
      rw [hn, Int.floor_intCast]

/-- Rounding a number that is already on the grid does nothing. -/
theorem round_onGrid (h : OnGrid d x) : ((round (x * 10 ^ d) : ℤ) : ℚ) = x * 10 ^ d := by
  obtain ⟨n, hn⟩ := onGrid_iff.mp h
  rw [hn, round_intCast]

/-- To the nearest integer, and to the even one when two are as near. -/
def roundHalfEven (x : ℚ) : ℤ :=
  if Int.fract x < 1 / 2 then ⌊x⌋
  else if 1 / 2 < Int.fract x then ⌊x⌋ + 1
  else if ⌊x⌋ % 2 = 0 then ⌊x⌋
  else ⌊x⌋ + 1

/-- Halfway between an even integer and the next one. -/
def EvenTie (x : ℚ) : Prop := ⌊x⌋ % 2 = 0 ∧ Int.fract x = 1 / 2

instance (x : ℚ) : Decidable (EvenTie x) := inferInstanceAs (Decidable (_ ∧ _))

theorem round_of_fract_lt (h : Int.fract x < 1 / 2) : round x = ⌊x⌋ := by
  have h0 := Int.fract_nonneg x
  have hx := Int.floor_add_fract x
  rw [round_eq_iff, Set.mem_Ico]
  constructor
  · linarith
  · linarith

theorem round_of_le_fract (h : 1 / 2 ≤ Int.fract x) : round x = ⌊x⌋ + 1 := by
  have h1 := Int.fract_lt_one x
  have hx := Int.floor_add_fract x
  rw [round_eq_iff, Set.mem_Ico]
  push_cast
  constructor
  · linarith
  · linarith

/-- Rounding a half up and rounding it to even part only above an even integer. -/
theorem round_eq_roundHalfEven_iff : round x = roundHalfEven x ↔ ¬ EvenTie x := by
  unfold roundHalfEven EvenTie
  by_cases hlow : Int.fract x < 1 / 2
  · rw [round_of_fract_lt hlow, if_pos hlow]
    exact iff_of_true rfl fun htie => hlow.ne htie.2
  · rw [round_of_le_fract (not_lt.mp hlow), if_neg hlow]
    by_cases hhigh : 1 / 2 < Int.fract x
    · rw [if_pos hhigh]
      exact iff_of_true rfl fun htie => hhigh.ne' htie.2
    · have htie : Int.fract x = 1 / 2 := le_antisymm (not_lt.mp hhigh) (not_lt.mp hlow)
      rw [if_neg hhigh]
      by_cases heven : ⌊x⌋ % 2 = 0
      · rw [if_pos heven]
        exact iff_of_false (by omega) (not_not.mpr ⟨heven, htie⟩)
      · rw [if_neg heven]
        exact iff_of_true rfl fun h => heven h.1

/-- Cut to `d` decimals; for a non-negative number. -/
def trunc (d : ℕ) (x : ℚ) : ℚ := ⌊x * 10 ^ d⌋ / 10 ^ d

theorem trunc_onGrid (h : OnGrid d x) : trunc d x = x := by
  obtain ⟨n, hn⟩ := onGrid_iff.mp h
  unfold trunc
  rw [hn, Int.floor_intCast, ← hn, mul_div_cancel_right₀ _ (pow_pos d).ne']

/-- The whole part of a grid number, with a nudge below the grid's step. -/
theorem floor_grid_add (n : ℤ) (D : ℕ) (hD : 0 < D) {ε : ℚ} (h0 : 0 ≤ ε) (h1 : ε * D < 1) :
    ⌊(n : ℚ) / D + ε⌋ = n / (D : ℤ) := by
  have hDq : (0 : ℚ) < D := by exact_mod_cast hD
  have hDz : (0 : ℤ) < D := by exact_mod_cast hD
  have hdiv := Int.mul_ediv_add_emod n D
  have hmod0 := Int.emod_nonneg n hDz.ne'
  have hmod1 := Int.emod_lt_of_pos n hDz
  -- n = D * q + r with 0 ≤ r ≤ D - 1, so n / D + ε lies in [q, q + 1)
  have hn : (n : ℚ) = D * (n / (D : ℤ) : ℤ) + (n % (D : ℤ) : ℤ) := by exact_mod_cast hdiv.symm
  have hr0 : (0 : ℚ) ≤ (n % (D : ℤ) : ℤ) := by exact_mod_cast hmod0
  have hr1 : ((n % (D : ℤ) : ℤ) : ℚ) + 1 ≤ D := by exact_mod_cast hmod1
  rw [Int.floor_eq_iff]
  constructor
  · rw [← sub_le_iff_le_add, le_div_iff₀ hDq]
    nlinarith
  · rw [← lt_sub_iff_add_lt, div_lt_iff₀ hDq]
    nlinarith

theorem floor_grid (n : ℤ) (D : ℕ) (hD : 0 < D) : ⌊(n : ℚ) / D⌋ = n / (D : ℤ) := by
  have h := floor_grid_add n D hD (le_refl (0 : ℚ)) (by simp)
  rwa [add_zero] at h

/-- Taking `loss` off keeps the whole part exactly when the loss is no more than
the fraction that is dropped anyway, and what is left stays below one. -/
theorem floor_sub_eq_floor_iff (loss : ℚ) :
    ⌊x - loss⌋ = ⌊x⌋ ↔ loss ≤ Int.fract x ∧ Int.fract x < 1 + loss := by
  have hfract : (⌊x⌋ : ℚ) = x - Int.fract x := (Int.self_sub_fract x).symm
  rw [Int.floor_eq_iff, hfract]
  constructor
  · intro h
    exact ⟨by linarith [h.1], by linarith [h.2]⟩
  · intro h
    exact ⟨by linarith [h.1], by linarith [h.2]⟩

/-- The fraction of a grid number is short of one by a grid step. -/
theorem fract_grid_le (n : ℤ) (D : ℕ) (hD : 0 < D) : Int.fract ((n : ℚ) / D) ≤ 1 - 1 / D := by
  have hDq : (0 : ℚ) < D := by exact_mod_cast hD
  have hDz : (0 : ℤ) < D := by exact_mod_cast hD
  have hdiv : D * (n / (D : ℤ)) + n % (D : ℤ) = n := Int.mul_ediv_add_emod n D
  have hmod := Int.emod_lt_of_pos n hDz
  have hle : n + 1 ≤ D * (n / (D : ℤ)) + D := by omega
  have hleq : (n : ℚ) + 1 ≤ D * (n / (D : ℤ) : ℤ) + D := by exact_mod_cast hle
  unfold Int.fract
  rw [floor_grid n D hD, sub_le_iff_le_add, div_le_iff₀ hDq]
  have hcancel : (1 : ℚ) / D * D = 1 := div_mul_cancel₀ 1 hDq.ne'
  nlinarith

end Decimal
