import Oddzilla.Odds.Quote

/-!
# The ladder on every price

`quoteOnLadder` off the four-decimal grid: it quotes the units of the price with a nudge
smaller than a unit, so it is monotone and idempotent.  And it never lifts a fair price
`1 / p` over itself when `p` has seven decimals: no nudge reaches the next rung.
-/

namespace Oddzilla

/-- The step at a price of `y` units. -/
def bandStep (y : ℚ) : ℤ :=
  if y < 100000 then 100
  else if y < 200000 then 1000
  else if y < 500000 then 5000
  else if y < 1000000 then 10000
  else 50000

/-- What is added to `y` units before they are cut. -/
def nudge (y : ℚ) : ℚ := if y < 10100 then 1 / 10 ^ 6 else bandStep y / 10 ^ 9

theorem bandStep_mem (y : ℚ) : bandStep y ∈ steps := by
  unfold bandStep steps
  split
  · decide
  · split
    · decide
    · split
      · decide
      · split
        · decide
        · decide

theorem bandStep_le (y : ℚ) : (bandStep y : ℚ) ≤ 50000 := by
  have h : ∀ S ∈ steps, S ≤ 50000 := by
    unfold steps
    decide
  exact_mod_cast h _ (bandStep_mem y)

theorem bandStep_pos (y : ℚ) : 0 < bandStep y := steps_pos (bandStep_mem y)

theorem nudge_pos (y : ℚ) : 0 < nudge y := by
  unfold nudge
  split
  · norm_num
  · have hpos : (0 : ℚ) < bandStep y := by exact_mod_cast bandStep_pos y
    positivity

theorem nudge_lt_one (y : ℚ) : nudge y < 1 := by
  unfold nudge
  split
  · norm_num
  · have hle := bandStep_le y
    rw [div_lt_one (by norm_num)]
    linarith

theorem ladderStep_bandStep (y : ℚ) : ladderStep (y / 10000) = bandStep y / 10000 := by
  have h : ∀ b c : ℚ, c = b / 10000 → (y / 10000 < c ↔ y < b) := by
    intro b c hc
    rw [hc, div_lt_div_iff_of_pos_right (by norm_num)]
  unfold bandStep
  rw [ladderStep_eq]
  simp only [h 100000 10 (by norm_num), h 200000 20 (by norm_num), h 500000 50 (by norm_num),
    h 1000000 100 (by norm_num)]
  split
  · norm_num
  · split
    · norm_num
    · split
      · norm_num
      · split
        · norm_num
        · norm_num

theorem floor_nudged_le {y : ℚ} {b : ℤ} (h : y < b) : ⌊y + nudge y⌋ ≤ b := by
  have hn := nudge_lt_one y
  have hlt : ⌊y + nudge y⌋ < b + 1 := by
    rw [Int.floor_lt]
    push_cast
    linarith
  omega

theorem le_floor_nudged {y : ℚ} {b : ℤ} (h : (b : ℚ) ≤ y) : b ≤ ⌊y + nudge y⌋ := by
  rw [Int.le_floor]
  linarith [nudge_pos y]

theorem ladderUnits_bands (u : ℤ) : ladderUnits u =
    if u < 10100 then u
    else if u < 100000 then u / 100 * 100
    else if u < 200000 then u / 1000 * 1000
    else if u < 500000 then u / 5000 * 5000
    else if u < 1000000 then u / 10000 * 10000
    else u / 50000 * 50000 := by
  unfold ladderUnits
  split_ifs <;> rfl

/-- The band of the price is the band of its nudged units, or ends where they stand. -/
theorem ladderUnits_nudged {y : ℚ} (h : ¬ y < 10100) :
    ladderUnits ⌊y + nudge y⌋ = ⌊y + nudge y⌋ / bandStep y * bandStep y := by
  have h0 : 10100 ≤ ⌊y + nudge y⌋ := le_floor_nudged (by push_cast; exact not_lt.mp h)
  unfold bandStep
  split
  · next h1 =>
    have hle := floor_nudged_le (b := 100000) (by push_cast; exact h1)
    rw [ladderUnits_bands]
    split_ifs <;> omega
  · next h1 =>
    have hge := le_floor_nudged (b := 100000) (by push_cast; exact not_lt.mp h1)
    split
    · next h2 =>
      have hle := floor_nudged_le (b := 200000) (by push_cast; exact h2)
      rw [ladderUnits_bands]
      split_ifs <;> omega
    · next h2 =>
      have hge := le_floor_nudged (b := 200000) (by push_cast; exact not_lt.mp h2)
      split
      · next h3 =>
        have hle := floor_nudged_le (b := 500000) (by push_cast; exact h3)
        rw [ladderUnits_bands]
        split_ifs <;> omega
      · next h3 =>
        have hge := le_floor_nudged (b := 500000) (by push_cast; exact not_lt.mp h3)
        split
        · next h4 =>
          have hle := floor_nudged_le (b := 1000000) (by push_cast; exact h4)
          rw [ladderUnits_bands]
          split_ifs <;> omega
        · next h4 =>
          have hge := le_floor_nudged (b := 1000000) (by push_cast; exact not_lt.mp h4)
          rw [ladderUnits_bands]
          split_ifs <;> omega

/-- A price is quoted as its nudged units. -/
theorem quote_nudged {y : ℚ} (hy : 0 < y) :
    quoteOnLadder (y / 10000) = ladderUnits ⌊y + nudge y⌋ / 10000 := by
  have hpos : ¬ y / 10000 ≤ 0 := not_le.mpr (by positivity)
  have hfloor : y / 10000 < ladderFloor ↔ y < 10100 := by
    unfold ladderFloor
    rw [show (101 / 100 : ℚ) = 10100 / 10000 by norm_num, div_lt_div_iff_of_pos_right (by norm_num)]
  unfold quoteOnLadder
  rw [if_neg hpos]
  by_cases h : y < 10100
  · rw [if_pos (hfloor.mpr h)]
    have hle := floor_nudged_le (b := 10100) (by push_cast; exact h)
    have hsame : ladderUnits ⌊y + nudge y⌋ = ⌊y + nudge y⌋ := by
      rw [ladderUnits_bands]
      split_ifs <;> omega
    rw [hsame]
    unfold floorToOddsDp nudge
    rw [if_pos h, div_mul_cancel₀ y (by norm_num : (10000 : ℚ) ≠ 0)]
  · rw [if_neg fun hlt => h (hfloor.mp hlt), ladderStep_bandStep, ladderUnits_nudged h]
    have hstep : (0 : ℚ) < bandStep y := by exact_mod_cast bandStep_pos y
    have hunits :
      y / 10000 / ((bandStep y : ℚ) / 10000) + 1 / 10 ^ 9 = (y + nudge y) / bandStep y := by
      unfold nudge
      rw [if_neg h, div_div_div_cancel_right₀ (by norm_num : (10000 : ℚ) ≠ 0)]
      field_simp
    have hrung : ((⌊y + nudge y⌋ / bandStep y : ℤ) : ℚ) * (bandStep y / 10000) =
        (⌊y + nudge y⌋ / bandStep y * bandStep y : ℤ) / 10000 := by
      push_cast
      ring
    rw [hunits, Int.floor_div_cast_of_nonneg (bandStep_pos y).le, hrung, floorToOddsDp_units]

/-! ## Monotone and idempotent -/

theorem floor_nudged_mono {y z : ℚ} (h : y ≤ z) :
    ladderUnits ⌊y + nudge y⌋ ≤ ladderUnits ⌊z + nudge z⌋ := by
  refine ladderUnits_mono ?_
  by_cases hy : y < 10100
  · by_cases hz : z < 10100
    · refine Int.floor_le_floor ?_
      unfold nudge
      rw [if_pos hy, if_pos hz]
      linarith
    · exact (floor_nudged_le (b := 10100) (by push_cast; exact hy)).trans
        (le_floor_nudged (by push_cast; exact not_lt.mp hz))
  · have hz : ¬ z < 10100 := fun hlt => hy (h.trans_lt hlt)
    refine Int.floor_le_floor ?_
    have hstep : bandStep y ≤ bandStep z := by
      unfold bandStep
      split_ifs <;> first | omega | (exfalso; linarith)
    have hstepq : (bandStep y : ℚ) ≤ bandStep z := by exact_mod_cast hstep
    unfold nudge
    rw [if_neg hy, if_neg hz]
    linarith

theorem quote_of_nonpos {x : ℚ} (h : x ≤ 0) : quoteOnLadder x = 0 := by
  unfold quoteOnLadder
  rw [if_pos h]

theorem quote_units_of_pos {x : ℚ} (h : 0 < x) :
    quoteOnLadder x = ladderUnits ⌊x * 10000 + nudge (x * 10000)⌋ / 10000 := by
  have hq := quote_nudged (y := x * 10000) (by positivity)
  rwa [mul_div_cancel_right₀ x (by norm_num : (10000 : ℚ) ≠ 0)] at hq

theorem ladderUnits_nonneg {u : ℤ} (h : 0 ≤ u) : 0 ≤ ladderUnits u := by
  rw [ladderUnits_bands]
  split_ifs <;> omega

theorem floor_nudged_nonneg {y : ℚ} (h : 0 < y) : 0 ≤ ⌊y + nudge y⌋ :=
  le_floor_nudged (by push_cast; exact h.le)

/-- A quote is a rung, in units. -/
theorem exists_rung (x : ℚ) : ∃ u : ℤ, 0 ≤ u ∧ ladderUnits u = u ∧ quoteOnLadder x = u / 10000 := by
  by_cases h : x ≤ 0
  · exact ⟨0, le_rfl, by decide, by rw [quote_of_nonpos h]; norm_num⟩
  · have hpos := not_le.mp h
    refine ⟨ladderUnits ⌊x * 10000 + nudge (x * 10000)⌋, ?_, ladderUnits_idem _,
      quote_units_of_pos hpos⟩
    exact ladderUnits_nonneg (floor_nudged_nonneg (by positivity))

theorem quote_mono {x y : ℚ} (h : x ≤ y) : quoteOnLadder x ≤ quoteOnLadder y := by
  by_cases hx : x ≤ 0
  · obtain ⟨u, hu, -, hq⟩ := exists_rung y
    rw [quote_of_nonpos hx, hq]
    have huq : (0 : ℚ) ≤ u := by exact_mod_cast hu
    positivity
  · have hpos := not_le.mp hx
    rw [quote_units_of_pos hpos, quote_units_of_pos (hpos.trans_le h),
      div_le_div_iff_of_pos_right (by norm_num)]
    exact_mod_cast floor_nudged_mono (y := x * 10000) (z := y * 10000) (by linarith)

/-- Whole units are quoted as they are cut. -/
theorem quote_nat_units {u : ℤ} (hu : 0 ≤ u) :
    quoteOnLadder (u / 10000) = ladderUnits u / 10000 := by
  rcases hu.eq_or_lt with rfl | hpos
  · rw [quote_of_nonpos (by norm_num)]
    have hzero : ladderUnits 0 = 0 := by decide
    rw [hzero]
    norm_num
  · have hq : (0 : ℚ) < u := by exact_mod_cast hpos
    rw [quote_nudged hq]
    have hfloor : ⌊(u : ℚ) + nudge u⌋ = u := by
      rw [Int.floor_eq_iff]
      constructor
      · linarith [nudge_pos u]
      · linarith [nudge_lt_one u]
    rw [hfloor]

theorem quote_idem (x : ℚ) : quoteOnLadder (quoteOnLadder x) = quoteOnLadder x := by
  obtain ⟨u, hu, hrung, hq⟩ := exists_rung x
  rw [hq, quote_nat_units hu, hrung]

/-! ## Under a fair price -/

/-- No price in units up to 1.01 lies so little above a fair one. -/
theorem no_near_unit :
    ∀ w ∈ Finset.Icc 10001 10100, ∀ d ∈ Finset.Icc 1 10, (10 ^ 11 + d) % w ≠ 0 := by
  decide

/-- A fair price stays under its rung and its nudge. -/
theorem ladderUnits_fair {k : ℤ} (hk : 0 < k) (hk1 : k < 10 ^ 7) :
    (ladderUnits ⌊(10 ^ 11 / k : ℚ) + nudge (10 ^ 11 / k)⌋ : ℚ) ≤ 10 ^ 11 / k := by
  have hkq : (0 : ℚ) < k := by exact_mod_cast hk
  have hkq1 : (k : ℚ) < 10 ^ 7 := by exact_mod_cast hk1
  generalize hy : (10 ^ 11 / k : ℚ) = y
  have hyk : y * k = 10 ^ 11 := by
    rw [← hy, div_mul_cancel₀ _ hkq.ne']
  have hy4 : (10000 : ℚ) < y := by
    rw [← hy, lt_div_iff₀ hkq]
    linarith
  generalize hw : ⌊y + nudge y⌋ = w
  have hwle : (w : ℚ) ≤ y + nudge y := hw ▸ Int.floor_le _
  by_cases hwy : (w : ℚ) ≤ y
  · exact le_trans (by exact_mod_cast ladderUnits_le w) hwy
  · -- the nudge lifts the units over the price
    have hwy := not_le.mp hwy
    have hgap : 10 ^ 11 < w * k := by
      have h : (10 ^ 11 : ℚ) < w * k := by
        rw [← hyk]
        exact mul_lt_mul_of_pos_right hwy hkq
      exact_mod_cast h
    by_cases hlow : y < 10100
    · exfalso
      have hnear : w * k ≤ 10 ^ 11 + 10 := by
        have hn : nudge y = 1 / 10 ^ 6 := by
          unfold nudge
          rw [if_pos hlow]
        rw [hn] at hwle
        have h : (w * k : ℚ) ≤ 10 ^ 11 + 10 := by
          have hmul := mul_le_mul_of_nonneg_right hwle hkq.le
          rw [add_mul, hyk] at hmul
          linarith
        exact_mod_cast h
      have hw1 : 10001 ≤ w := by
        have h : (10000 : ℚ) < w := hy4.trans hwy
        have h : (10000 : ℤ) < w := by exact_mod_cast h
        omega
      have hw2 : w ≤ 10100 := hw ▸ floor_nudged_le (b := 10100) (by push_cast; exact hlow)
      obtain ⟨n, rfl⟩ := Int.eq_ofNat_of_zero_le (by omega : 0 ≤ w)
      obtain ⟨j, rfl⟩ := Int.eq_ofNat_of_zero_le hk.le
      refine no_near_unit n (Finset.mem_Icc.mpr ⟨by omega, by omega⟩) (n * j - 10 ^ 11)
        (Finset.mem_Icc.mpr ⟨?_, ?_⟩) ?_
      · have h : 10 ^ 11 < n * j := by exact_mod_cast hgap
        omega
      · have h : n * j ≤ 10 ^ 11 + 10 := by exact_mod_cast hnear
        omega
      · have h : 10 ^ 11 < n * j := by exact_mod_cast hgap
        rw [Nat.add_sub_cancel' h.le, Nat.mul_mod_right]
    · have hband := ladderUnits_nudged hlow
      rw [hw] at hband
      have hS := bandStep_pos y
      have hSq : (0 : ℚ) < bandStep y := by exact_mod_cast hS
      have hn : nudge y = bandStep y / 10 ^ 9 := by
        unfold nudge
        rw [if_neg hlow]
      by_cases hdvd : bandStep y ∣ w
      · exfalso
        -- a whole step apart, which the nudge does not reach
        have hdvd11 : bandStep y ∣ 10 ^ 11 := by
          have h : ∀ S ∈ steps, S ∣ 10 ^ 11 := by
            unfold steps
            decide
          exact h _ (bandStep_mem y)
        have hle := Int.le_of_dvd (by omega) (dvd_sub (hdvd.mul_right k) hdvd11)
        have hleq : (bandStep y : ℚ) ≤ w * k - 10 ^ 11 := by exact_mod_cast hle
        have hmul := mul_le_mul_of_nonneg_right hwle hkq.le
        rw [add_mul, hyk, hn] at hmul
        have hsmall : (bandStep y : ℚ) / 10 ^ 9 * k < bandStep y := by
          rw [div_mul_eq_mul_div, div_lt_iff₀ (by norm_num)]
          have := mul_lt_mul_of_pos_left hkq1 hSq
          linarith
        linarith
      · have hlt : ladderUnits w ≤ w - 1 := by
          rw [hband]
          have hle := Ladder.floor_le (u := w) hS
          have hne : w / bandStep y * bandStep y ≠ w :=
            fun he => hdvd ⟨w / bandStep y, by rw [mul_comm]; exact he.symm⟩
          omega
        have hltq : (ladderUnits w : ℚ) ≤ w - 1 := by exact_mod_cast hlt
        linarith [nudge_lt_one y]

/-- No price up to a fair one is quoted over it. -/
theorem quote_le_fair {x : ℚ} {k : ℤ} (hk : 0 < k) (hk1 : k < 10 ^ 7) (hx : x ≤ 10 ^ 7 / k) :
    quoteOnLadder x ≤ 10 ^ 7 / k := by
  have hkq : (0 : ℚ) < k := by exact_mod_cast hk
  have hunits : (10 ^ 7 / k : ℚ) = 10 ^ 11 / k / 10000 := by
    field_simp
    norm_num
  refine (quote_mono hx).trans ?_
  rw [hunits, quote_nudged (by positivity), div_le_div_iff_of_pos_right (by norm_num)]
  exact ladderUnits_fair hk hk1

end Oddzilla
