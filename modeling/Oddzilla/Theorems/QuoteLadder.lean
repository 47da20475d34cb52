import Oddzilla.Odds.Quote

/-!
# One quote ladder

On prices with four decimals the four implementations of the ladder are one
function: it never raises a price, a price on a rung stays there, and a longer
price never gets a shorter quote, across the bounds of the bands as well.
-/

namespace Oddzilla.Theorems

theorem customStep_eq (n : ℚ) : CustomEvents.ladderStep n = ladderStep n := by
  rw [ladderStep_eq]
  unfold CustomEvents.ladderStep ladderBands
  simp only [List.find?_cons, Option.all_some, Option.all_none]
  by_cases h10 : n < 10
  · simp [h10]
  · by_cases h20 : n < 20
    · simp [h10, h20]
    · by_cases h50 : n < 50
      · simp [h10, h20, h50]
      · by_cases h100 : n < 100
        · simp [h10, h20, h50, h100]
        · simp [h10, h20, h50, h100]

/-- A step of the ladder is a whole number of units. -/
theorem ladderStep_units (n : ℚ) : ∃ S : ℤ, ladderStep n = S / 10000 := by
  rw [ladderStep_eq]
  split
  · exact ⟨100, by norm_num⟩
  · split
    · exact ⟨1000, by norm_num⟩
    · split
      · exact ⟨5000, by norm_num⟩
      · split
        · exact ⟨10000, by norm_num⟩
        · exact ⟨50000, by norm_num⟩

theorem roundDown_units (u : ℤ) : CustomEvents.roundDown (u / 10000) 4 = u / 10000 := by
  unfold CustomEvents.roundDown
  have hfloor : ⌊(u : ℚ) / 10000 * 10 ^ 4⌋ = u := by
    rw [show (u : ℚ) / 10000 * 10 ^ 4 = u by ring, Int.floor_intCast]
  rw [hfloor]
  norm_num

/-- On whole units the missing nudge of `custom-events.ts` makes no difference. -/
theorem customQuote_eq (u : ℤ) :
    CustomEvents.quoteOnLadder (u / 10000) = quoteOnLadder (u / 10000) := by
  unfold CustomEvents.quoteOnLadder quoteOnLadder
  rw [customStep_eq]
  obtain ⟨S, hS⟩ := ladderStep_units (u / 10000)
  have hrung : ∀ r : ℤ, (r : ℚ) * ladderStep (u / 10000) = (r * S : ℤ) / 10000 := by
    intro r
    rw [hS]
    push_cast
    ring
  split
  · rfl
  · split
    · rw [roundDown_units, floorToOddsDp_units]
    · rw [hrung, roundDown_units, floorToOddsDp_units]

theorem quote_units {u : ℤ} (hu : 0 < u) : quoteOnLadder (u / 10000) = ladderUnits u / 10000 := by
  have hq : (0 : ℚ) < u := by exact_mod_cast hu
  have hfloor : ⌊(u : ℚ) + 1 / 10 ^ 6⌋ = u := by
    rw [Int.floor_eq_iff]
    constructor <;> linarith
  rw [(clear_int u).quoteOnLadder_eq hq, hfloor]

/-- For every price on the four-decimal grid from 1.0001 on: the publisher, the
bet-delay worker, `odds.ts` and `custom-events.ts` quote the same price, which is
not longer than the price, quoted to itself, and not longer than the quote of any
longer price. -/
theorem one_quote_ladder (x : ℚ) (hgrid : Decimal.OnGrid 4 x) (hx : 10001 / 10000 ≤ x) :
    (Publisher.ladderUnits ⌊x * 10000⌋ : ℚ) / 10000 = quoteOnLadder x ∧
      (ladderUnits ⌊x * 10000⌋ : ℚ) / 10000 = quoteOnLadder x ∧
      CustomEvents.quoteOnLadder x = quoteOnLadder x ∧
      quoteOnLadder x ≤ x ∧ quoteOnLadder (quoteOnLadder x) = quoteOnLadder x ∧
      ∀ y, Decimal.OnGrid 4 y → x ≤ y → quoteOnLadder x ≤ quoteOnLadder y := by
  obtain ⟨u, hu⟩ := hgrid
  have hxu : x = (u : ℚ) / 10000 := by
    rw [hu]
    norm_num
  have hle : 10001 ≤ u := by
    rw [hxu, div_le_div_iff_of_pos_right (by norm_num)] at hx
    exact_mod_cast hx
  have hunits : ⌊x * 10000⌋ = u := by
    rw [hxu, div_mul_cancel₀ _ (by norm_num : (10000 : ℚ) ≠ 0), Int.floor_intCast]
  have hquote : quoteOnLadder x = ladderUnits u / 10000 := by
    rw [hxu]
    exact quote_units (by omega)
  have hrung := le_ladderUnits (u := u) (by omega)
  rw [hunits]
  refine ⟨hquote.symm, hquote.symm, ?_, ?_, ?_, fun y hy hxy => ?_⟩
  · rw [hxu]
    exact customQuote_eq u
  · rw [hquote, hxu, div_le_div_iff_of_pos_right (by norm_num)]
    exact_mod_cast ladderUnits_le u
  · rw [hquote, quote_units (by omega), ladderUnits_idem]
  · obtain ⟨v, hv⟩ := hy
    have hyv : y = (v : ℚ) / 10000 := by
      rw [hv]
      norm_num
    have huv : u ≤ v := by
      rw [hxu, hyv, div_le_div_iff_of_pos_right (by norm_num)] at hxy
      exact_mod_cast hxy
    rw [hquote, hyv, quote_units (by omega), div_le_div_iff_of_pos_right (by norm_num)]
    exact_mod_cast ladderUnits_mono huv

theorem one_quote_ladder_tail :
    quoteOnLadder (1099999 / 10000) = 105 ∧ CustomEvents.quoteOnLadder (1099999 / 10000) = 105 := by
  obtain ⟨-, hworker, hcustom, -⟩ := one_quote_ladder (1099999 / 10000) ⟨1099999, by norm_num⟩
    (by norm_num)
  have hunits : ⌊(1099999 / 10000 : ℚ) * 10000⌋ = 1099999 := by norm_num
  have hsnap : ladderUnits 1099999 = 1050000 := by decide
  rw [hunits, hsnap] at hworker
  have hquote : quoteOnLadder (1099999 / 10000) = 105 := by
    rw [← hworker]
    norm_num
  exact ⟨hquote, hcustom.trans hquote⟩

end Oddzilla.Theorems
