import Oddzilla.Odds.CustomMarket
import Mathlib.Tactic.Linarith
import Mathlib.Tactic.FieldSimp
import Mathlib.Tactic.Ring

/-!
# The ladder of authored prices

A price that is any number of an ordered field: where its quote lies, and that a longer
price gets no shorter a quote.
-/

namespace Oddzilla.CustomMarket

variable {K : Type} [Field K] [LinearOrder K] {n n' : K}

theorem ladderStep_eq (n : K) : ladderStep n =
    if n < 10 then 1 / 100 else if n < 20 then 1 / 10 else if n < 50 then 1 / 2
    else if n < 100 then 1 else 5 := by
  unfold ladderStep ladderBands
  simp only [List.find?_cons]
  by_cases h10 : n < 10
  · simp [h10]
  · by_cases h20 : n < 20
    · simp [h10, h20]
    · by_cases h50 : n < 50
      · simp [h10, h20, h50]
      · by_cases h100 : n < 100
        · simp [h10, h20, h50, h100]
        · simp [h10, h20, h50, h100]

/-- The steps, and the bounds of the bands. -/
def steps : List ℚ := [1 / 100, 1 / 10, 1 / 2, 1, 5]

def bounds : List ℚ := [10, 20, 50, 100]

theorem ladderStep_mem (n : K) : ladderStep n ∈ steps := by
  rw [ladderStep_eq]
  unfold steps
  split_ifs <;> simp

/-- A step is a whole number of units, and every bound is a rung of every step. -/
theorem step_spec {s : ℚ} (h : s ∈ steps) : 0 < s ∧ (∃ S : ℤ, s = S / 10000) ∧
    ∀ B ∈ bounds, ∃ q : ℤ, B = q * s := by
  have hrung : ∀ B ∈ bounds, ∃ q : ℤ, B = q := by
    intro B hB
    simp only [bounds, List.mem_cons, List.not_mem_nil, or_false] at hB
    rcases hB with rfl | rfl | rfl | rfl
    · exact ⟨10, rfl⟩
    · exact ⟨20, rfl⟩
    · exact ⟨50, rfl⟩
    · exact ⟨100, rfl⟩
  -- every step but the last divides 1
  have hpart : ∀ k : ℤ, s * k = 1 → ∀ B ∈ bounds, ∃ q : ℤ, B = q * s := by
    intro k hk B hB
    obtain ⟨q, rfl⟩ := hrung B hB
    refine ⟨q * k, ?_⟩
    push_cast
    rw [mul_assoc, mul_comm (k : ℚ), hk, mul_one]
  simp only [steps, List.mem_cons, List.not_mem_nil, or_false] at h
  rcases h with rfl | rfl | rfl | rfl | rfl
  · exact ⟨by norm_num, ⟨100, by norm_num⟩, hpart 100 (by norm_num)⟩
  · exact ⟨by norm_num, ⟨1000, by norm_num⟩, hpart 10 (by norm_num)⟩
  · exact ⟨by norm_num, ⟨5000, by norm_num⟩, hpart 2 (by norm_num)⟩
  · exact ⟨by norm_num, ⟨10000, by norm_num⟩, hpart 1 (by norm_num)⟩
  · refine ⟨by norm_num, ⟨50000, by norm_num⟩, ?_⟩
    intro B hB
    simp only [bounds, List.mem_cons, List.not_mem_nil, or_false] at hB
    rcases hB with rfl | rfl | rfl | rfl
    · exact ⟨2, by norm_num⟩
    · exact ⟨4, by norm_num⟩
    · exact ⟨10, by norm_num⟩
    · exact ⟨20, by norm_num⟩

/-- Prices of different steps lie on two sides of a bound. -/
theorem step_eq_or_bound (h : n ≤ n') : ladderStep n = ladderStep n' ∨
    ∃ B ∈ bounds, n < (B : K) ∧ (B : K) ≤ n' := by
  by_contra hnot
  obtain ⟨hstep, hbound⟩ := not_or.mp hnot
  have hsame : ∀ B ∈ bounds, (n < (B : K) ↔ n' < (B : K)) := by
    intro B hB
    constructor
    · intro hlt
      by_contra hge
      exact hbound ⟨B, hB, hlt, not_lt.mp hge⟩
    · exact h.trans_lt
  have h10 := hsame 10 (by simp [bounds])
  have h20 := hsame 20 (by simp [bounds])
  have h50 := hsame 50 (by simp [bounds])
  have h100 := hsame 100 (by simp [bounds])
  push_cast at h10 h20 h50 h100
  apply hstep
  rw [ladderStep_eq, ladderStep_eq]
  simp only [h10, h20, h50, h100]

variable [IsStrictOrderedRing K]

theorem step_pos (n : K) : (0 : K) < (ladderStep n : ℚ) :=
  Rat.cast_pos.mpr (step_spec (ladderStep_mem n)).1

variable [FloorRing K]

omit [IsStrictOrderedRing K] in
theorem quote_below (hpos : 0 < n) (h : n < ((ladderFloor : ℚ) : K)) :
    quoteOnLadder n = roundDown n 4 := by
  unfold quoteOnLadder
  rw [if_neg (not_le.mpr hpos), if_pos h]

/-- On the ladder a price goes to a rung. -/
theorem quote_eq (h : ((ladderFloor : ℚ) : K) ≤ n) : quoteOnLadder n =
    ⌊n / (ladderStep n : ℚ) + 1 / 10 ^ 9⌋ * (ladderStep n : ℚ) := by
  have hpos : ¬ n ≤ 0 := by
    have : ((0 : ℚ) : K) < (ladderFloor : ℚ) := Rat.cast_lt.mpr (by norm_num [ladderFloor])
    rw [Rat.cast_zero] at this
    exact not_le.mpr (this.trans_le h)
  unfold quoteOnLadder
  rw [if_neg hpos, if_neg (not_lt.mpr h)]
  dsimp only
  obtain ⟨-, ⟨S, hS⟩, -⟩ := step_spec (ladderStep_mem n)
  generalize ⌊n / ((ladderStep n : ℚ) : K) + 1 / 10 ^ 9⌋ = r
  have hunits : (r : K) * (ladderStep n : ℚ) = ((r * S : ℤ) : K) / 10 ^ 4 := by
    rw [hS]
    push_cast
    ring
  unfold roundDown
  rw [hunits, div_mul_cancel₀ _ (by positivity), Int.floor_intCast]

/-- A rung that a price reaches its quote reaches too. -/
theorem rung_le_quote (h : ((ladderFloor : ℚ) : K) ≤ n) {q : ℤ}
    (hq : (q : K) * (ladderStep n : ℚ) ≤ n) : (q : K) * (ladderStep n : ℚ) ≤ quoteOnLadder n := by
  have hstep := step_pos n
  rw [quote_eq h]
  refine mul_le_mul_of_nonneg_right ?_ hstep.le
  have hdiv : (q : K) ≤ n / (ladderStep n : ℚ) := (le_div_iff₀ hstep).mpr hq
  exact_mod_cast Int.le_floor.mpr (hdiv.trans (le_add_of_nonneg_right (by positivity)))

theorem quote_le_rung (h : ((ladderFloor : ℚ) : K) ≤ n) {q : ℤ}
    (hq : n < (q : K) * (ladderStep n : ℚ)) : quoteOnLadder n ≤ (q : K) * (ladderStep n : ℚ) := by
  have hstep := step_pos n
  rw [quote_eq h]
  refine mul_le_mul_of_nonneg_right ?_ hstep.le
  have hdiv : n / (ladderStep n : ℚ) < q := (div_lt_iff₀ hstep).mpr hq
  have hnudge : (1 : K) / 10 ^ 9 < 1 := by norm_num
  have hfloor : ⌊n / ((ladderStep n : ℚ) : K) + 1 / 10 ^ 9⌋ < q + 1 := by
    rw [Int.floor_lt]
    push_cast
    linarith
  exact_mod_cast Int.lt_add_one_iff.mp hfloor

/-- A quote on the ladder is no shorter than where the ladder begins. -/
theorem floor_le_quote (h : ((ladderFloor : ℚ) : K) ≤ n) :
    ((ladderFloor : ℚ) : K) ≤ quoteOnLadder n := by
  have hrung : ∀ q : ℤ, ∀ b : ℚ, b = q * ladderStep n → ladderFloor ≤ b → (b : K) ≤ n →
      ((ladderFloor : ℚ) : K) ≤ quoteOnLadder n := by
    intro q b hb hfloor hle
    have hbK : (b : K) = (q : K) * (ladderStep n : ℚ) := by
      rw [hb]
      push_cast
      rfl
    exact (Rat.cast_le.mpr hfloor).trans (hbK ▸ rung_le_quote h (hbK ▸ hle))
  by_cases h10 : n < 10
  · refine hrung 101 ladderFloor ?_ le_rfl h
    rw [ladderStep_eq, if_pos h10]
    norm_num [ladderFloor]
  · obtain ⟨q, hq⟩ := (step_spec (ladderStep_mem n)).2.2 10 (by simp [bounds])
    refine hrung q 10 hq (by norm_num [ladderFloor]) ?_
    push_cast
    exact not_lt.mp h10

/-- Four decimals, down. -/
theorem roundDown_le (n : K) : roundDown n 4 ≤ n := by
  unfold roundDown
  rw [div_le_iff₀ (by positivity)]
  exact Int.floor_le _

theorem units_le_roundDown {u : ℤ} (h : (u : K) / 10000 ≤ n) : (u : K) / 10000 ≤ roundDown n 4 := by
  have hten : (10 : K) ^ 4 = 10000 := by norm_num
  unfold roundDown
  rw [hten, div_le_div_iff_of_pos_right (by norm_num)]
  exact_mod_cast Int.le_floor.mpr ((div_le_iff₀ (by norm_num)).mp h)

theorem units_le_quote {u : ℤ} (hu : u ≤ 10100) (hn : 0 < n) (h : (u : K) / 10000 ≤ n) :
    (u : K) / 10000 ≤ quoteOnLadder n := by
  by_cases hlow : n < ((ladderFloor : ℚ) : K)
  · rw [quote_below hn hlow]
    exact units_le_roundDown h
  · have hfloor : ((ladderFloor : ℚ) : K) = (10100 : ℤ) / 10000 := by
      rw [ladderFloor]
      push_cast
      norm_num
    refine le_trans ?_ (floor_le_quote (not_lt.mp hlow))
    rw [hfloor, div_le_div_iff_of_pos_right (by norm_num)]
    exact_mod_cast hu

/-- A keyed price of 1.0001 is published above 1. -/
theorem one_lt_quote (h : 10001 / 10000 ≤ n) : 1 < quoteOnLadder n := by
  have hpos : (0 : K) < n := lt_of_lt_of_le (by norm_num) h
  have hunits := units_le_quote (u := 10001) (by norm_num) hpos (by push_cast; exact h)
  push_cast at hunits
  exact lt_of_lt_of_le (by norm_num) hunits

/-- And a smaller one at 1 at most. -/
theorem quote_le_one (hn : 0 < n) (h : n < 10001 / 10000) : quoteOnLadder n ≤ 1 := by
  have hlow : n < ((ladderFloor : ℚ) : K) := by
    rw [ladderFloor]
    push_cast
    exact h.trans (by norm_num)
  have hunits : ⌊n * 10 ^ 4⌋ < 10001 := by
    rw [Int.floor_lt]
    push_cast
    linarith
  have hle : ⌊n * 10 ^ 4⌋ ≤ 10000 := by omega
  have hleK : ((⌊n * 10 ^ 4⌋ : ℤ) : K) ≤ 10000 := by exact_mod_cast hle
  rw [quote_below hn hlow]
  unfold roundDown
  rw [div_le_one (by positivity)]
  exact hleK.trans (by norm_num)

/-- A price above 1 is not published below it. -/
theorem one_le_quote (h : 1 < n) : 1 ≤ quoteOnLadder n := by
  have hunits :=
    units_le_quote (u := 10000) (by norm_num) (one_pos.trans h) (by push_cast; linarith)
  push_cast at hunits
  norm_num at hunits
  exact hunits

/-- The price is short of a rung by no more than the nudge of the ladder. -/
def NearRung (n : K) : Prop :=
  ∃ q : ℤ, n < q * (ladderStep n : ℚ) ∧ q * (ladderStep n : ℚ) ≤ n + 1 / 10 ^ 9 * (ladderStep n : ℚ)

/-- A quote is above the price by the nudge of the ladder at most. -/
theorem quote_le_nudge (hn : 0 < n) : quoteOnLadder n ≤ n + 1 / 10 ^ 9 * (ladderStep n : ℚ) := by
  have hstep := step_pos n
  by_cases hlow : n < ((ladderFloor : ℚ) : K)
  · rw [quote_below hn hlow]
    exact (roundDown_le n).trans (le_add_of_nonneg_right (by positivity))
  · rw [quote_eq (not_lt.mp hlow)]
    have hfloor := mul_le_mul_of_nonneg_right
      (Int.floor_le (n / ((ladderStep n : ℚ) : K) + 1 / 10 ^ 9)) hstep.le
    rwa [add_mul, div_mul_cancel₀ _ hstep.ne'] at hfloor

theorem quote_le (hn : 0 < n) (h : ¬ NearRung n) : quoteOnLadder n ≤ n := by
  by_cases hlow : n < ((ladderFloor : ℚ) : K)
  · rw [quote_below hn hlow]
    exact roundDown_le n
  · by_contra hlt
    have hnudge := quote_le_nudge hn
    rw [quote_eq (not_lt.mp hlow)] at hlt hnudge
    exact h ⟨_, not_le.mp hlt, hnudge⟩

/-- A longer price gets no shorter a quote. -/
theorem quote_mono (hn : 0 < n) (hle : n ≤ n') : quoteOnLadder n ≤ quoteOnLadder n' := by
  by_cases hlow' : n' < ((ladderFloor : ℚ) : K)
  · rw [quote_below hn (hle.trans_lt hlow'), quote_below (hn.trans_le hle) hlow']
    unfold roundDown
    rw [div_le_div_iff_of_pos_right (by positivity)]
    exact_mod_cast Int.floor_le_floor (mul_le_mul_of_nonneg_right hle (by positivity))
  · have hhigh' := not_lt.mp hlow'
    by_cases hlow : n < ((ladderFloor : ℚ) : K)
    · rw [quote_below hn hlow]
      exact (roundDown_le n).trans (hlow.le.trans (floor_le_quote hhigh'))
    · have hhigh := not_lt.mp hlow
      rcases step_eq_or_bound hle with hstep | ⟨B, hB, hbelow, habove⟩
      · rw [quote_eq hhigh, quote_eq hhigh', ← hstep]
        refine mul_le_mul_of_nonneg_right ?_ (step_pos n).le
        exact_mod_cast Int.floor_le_floor
          (add_le_add_left (div_le_div_of_nonneg_right hle (step_pos n).le) _)
      · -- the bound between the two is a rung of either step
        obtain ⟨q, hq⟩ := (step_spec (ladderStep_mem n)).2.2 B hB
        obtain ⟨q', hq'⟩ := (step_spec (ladderStep_mem n')).2.2 B hB
        have hqK : (B : K) = (q : K) * (ladderStep n : ℚ) := by
          rw [hq]
          push_cast
          rfl
        have hqK' : (B : K) = (q' : K) * (ladderStep n' : ℚ) := by
          rw [hq']
          push_cast
          rfl
        calc quoteOnLadder n ≤ B := hqK ▸ quote_le_rung hhigh (hqK ▸ hbelow)
          _ ≤ quoteOnLadder n' := hqK' ▸ rung_le_quote hhigh' (hqK' ▸ habove)

end Oddzilla.CustomMarket
