import Mathlib

/-!
# Grading a line

The arithmetic of the settlement service's ladder inference: a line is graded on
the settled number, a quarter line as two half-stakes on the lines a quarter
below and above it.  Lines are exact rationals; the `1e-9` of the source stays,
it is the width of its test for a quarter.
-/

namespace Oddzilla

/-- One side's result in wire form. -/
structure Graded where
  res : String
  vf : String
  deriving DecidableEq, Repr

def gWon : Graded := ⟨"1", ""⟩

def gLost : Graded := ⟨"0", ""⟩

def gVoid : Graded := ⟨"1", "1"⟩

def gHalfWon : Graded := ⟨"1", "0.5"⟩

def gHalfLost : Graded := ⟨"0", "0.5"⟩

def gradeEpsilon : ℚ := 1 / 10 ^ 9

/-- `math.Trunc` -/
def truncate (x : ℚ) : ℚ := if 0 ≤ x then ⌊x⌋ else ⌈x⌉

/-- `frac` is a quarter or three quarters. -/
def isQuarter (line : ℚ) : Bool :=
  let frac := |line - truncate line|
  decide (|frac - 1 / 4| < gradeEpsilon) || decide (|frac - 3 / 4| < gradeEpsilon)

/-! ## Quarters -/

theorem isQuarter_near {line : ℚ} (h : isQuarter line = true) :
    ∃ z : ℤ, |line - (2 * z + 1) / 4| < gradeEpsilon := by
  obtain ⟨t, ht⟩ : ∃ t : ℤ, truncate line = t := by
    unfold truncate
    split
    · exact ⟨_, rfl⟩
    · exact ⟨_, rfl⟩
  unfold isQuarter at h
  rw [ht, Bool.or_eq_true, decide_eq_true_iff, decide_eq_true_iff] at h
  -- the line is its integer part, up or down by the fraction
  rcases abs_cases (line - t) with ⟨habs, -⟩ | ⟨habs, -⟩ <;> rw [habs] at h
  · rcases h with h | h
    · refine ⟨2 * t, ?_⟩
      convert h using 2
      push_cast
      ring
    · refine ⟨2 * t + 1, ?_⟩
      convert h using 2
      push_cast
      ring
  · rcases h with h | h
    · refine ⟨2 * t - 1, ?_⟩
      rw [← abs_neg]
      convert h using 2
      push_cast
      ring
    · refine ⟨2 * t - 2, ?_⟩
      rw [← abs_neg]
      convert h using 2
      push_cast
      ring

/-- The two halves of a quarter line are no quarter lines. -/
theorem not_isQuarter_half {line δ : ℚ} (h : isQuarter line = true) (hδ : δ = 1 / 4 ∨ δ = -1 / 4) :
    isQuarter (line + δ) = false := by
  rw [Bool.eq_false_iff]
  intro h'
  obtain ⟨z, hz⟩ := isQuarter_near h
  obtain ⟨z', hz'⟩ := isQuarter_near h'
  unfold gradeEpsilon at hz hz'
  rw [abs_lt] at hz hz'
  rcases hδ with rfl | rfl
  · have h1 : (2 * (z' - z) - 1 : ℚ) < 1 := by linarith [hz.1, hz.2, hz'.1, hz'.2]
    have h2 : (-1 : ℚ) < 2 * (z' - z) - 1 := by linarith [hz.1, hz.2, hz'.1, hz'.2]
    have h1' : 2 * (z' - z) - 1 < 1 := by exact_mod_cast h1
    have h2' : -1 < 2 * (z' - z) - 1 := by exact_mod_cast h2
    omega
  · have h1 : (2 * (z' - z) + 1 : ℚ) < 1 := by linarith [hz.1, hz.2, hz'.1, hz'.2]
    have h2 : (-1 : ℚ) < 2 * (z' - z) + 1 := by linarith [hz.1, hz.2, hz'.1, hz'.2]
    have h1' : 2 * (z' - z) + 1 < 1 := by exact_mod_cast h1
    have h2' : -1 < 2 * (z' - z) + 1 := by exact_mod_cast h2
    omega

theorem quarter_below {line : ℚ} (h : isQuarter line = true) :
    (isQuarter (line - 1 / 4)).toNat < (isQuarter line).toNat := by
  have hhalf := not_isQuarter_half h (.inr rfl)
  rw [show line - 1 / 4 = line + -1 / 4 by ring, hhalf, h]
  decide

theorem quarter_above {line : ℚ} (h : isQuarter line = true) :
    (isQuarter (line + 1 / 4)).toNat < (isQuarter line).toNat := by
  rw [not_isQuarter_half h (.inl rfl), h]
  decide

/-! ## Grades -/

/-- `rank` orders the results as the settled number grows. -/
def Graded.rank (g : Graded) : Int :=
  if g = gLost then 0
  else if g = gHalfLost then 1
  else if g = gVoid then 2
  else if g = gHalfWon then 3
  else if g = gWon then 4
  else -1

/-- The two half-stakes of a quarter line. -/
def combine (x y : Graded) : Graded :=
  if x = gWon ∧ y = gWon then gWon
  else if x = gLost ∧ y = gLost then gLost
  else if (x = gWon ∧ y = gVoid) ∨ (x = gVoid ∧ y = gWon) then gHalfWon
  else if (x = gLost ∧ y = gVoid) ∨ (x = gVoid ∧ y = gLost) then gHalfLost
  else gVoid

/-- The opposite side's result. -/
def mirror (g : Graded) : Graded :=
  if g = gWon then gLost
  else if g = gLost then gWon
  else if g = gHalfWon then gHalfLost
  else if g = gHalfLost then gHalfWon
  else gVoid

/-- The high side of a line: over for a total, home for a handicap. -/
def gradeHigh (kind : String) (value : Int) (line : ℚ) : Graded :=
  if isQuarter line = true then
    combine (gradeHigh kind value (line - 1 / 4)) (gradeHigh kind value (line + 1 / 4))
  else
    let diff : ℚ := if kind = "handicap" then value + line else value - line
    if gradeEpsilon < diff then gWon
    else if diff < -gradeEpsilon then gLost
    else gVoid
termination_by (isQuarter line).toNat
decreasing_by
  · exact quarter_below ‹_›
  · exact quarter_above ‹_›

/-! ## The quarter grid -/

/-- The grade of a margin counted in quarters. -/
def marginGrade (d : Int) : Graded :=
  if 2 ≤ d then gWon
  else if d = 1 then gHalfWon
  else if d = 0 then gVoid
  else if d = -1 then gHalfLost
  else gLost

theorem marginGrade_cases (d : Int) : (2 ≤ d ∧ marginGrade d = gWon) ∨
    (d = 1 ∧ marginGrade d = gHalfWon) ∨ (d = 0 ∧ marginGrade d = gVoid) ∨
    (d = -1 ∧ marginGrade d = gHalfLost) ∨ (d ≤ -2 ∧ marginGrade d = gLost) := by
  unfold marginGrade
  grind

theorem isQuarter_of_frac {line : ℚ} {q : ℤ} (ht : truncate line = q)
    (h : |line - q| = 1 / 4 ∨ |line - q| = 3 / 4) : isQuarter line = true := by
  unfold isQuarter gradeEpsilon
  rw [ht, Bool.or_eq_true, decide_eq_true_iff, decide_eq_true_iff]
  rcases h with h | h <;> rw [h]
  · left
    norm_num
  · right
    norm_num

/-- Whether a line on the grid is a quarter line is the parity of its quarters. -/
theorem isQuarter_grid (n : Int) : isQuarter ((n : ℚ) / 4) = decide (n % 2 = 1) := by
  by_cases hodd : n % 2 = 1
  · rw [decide_eq_true hodd]
    obtain ⟨q, r, hn, hr⟩ : ∃ q r : ℤ, n = 4 * q + r ∧ (0 ≤ n ∧ (r = 1 ∨ r = 3) ∨
        n < 0 ∧ (r = -1 ∨ r = -3)) := by
      by_cases hn : 0 ≤ n
      · exact ⟨n / 4, n % 4, by omega, by omega⟩
      · exact ⟨-(-n / 4), -(-n % 4), by omega, by omega⟩
    have hline : (n : ℚ) / 4 = q + r / 4 := by
      rw [hn]
      push_cast
      ring
    have ht : truncate ((n : ℚ) / 4) = q := by
      unfold truncate
      rcases hr with ⟨hpos, hr⟩ | ⟨hneg, hr⟩
      · have hpos' : (0 : ℚ) ≤ (n : ℚ) / 4 := by positivity
        have hfloor : ⌊(n : ℚ) / 4⌋ = q := by
          rw [Int.floor_eq_iff, hline]
          rcases hr with rfl | rfl <;> push_cast <;> constructor <;> linarith
        rw [if_pos hpos', hfloor]
      · have hneg' : ¬ (0 : ℚ) ≤ (n : ℚ) / 4 := by
          have : (n : ℚ) < 0 := by exact_mod_cast hneg
          linarith
        have hceil : ⌈(n : ℚ) / 4⌉ = q := by
          rw [Int.ceil_eq_iff, hline]
          rcases hr with rfl | rfl <;> push_cast <;> constructor <;> linarith
        rw [if_neg hneg', hceil]
    refine isQuarter_of_frac ht ?_
    rw [hline, add_sub_cancel_left]
    rcases hr with ⟨-, rfl | rfl⟩ | ⟨-, rfl | rfl⟩ <;> norm_num [abs_of_pos, abs_of_neg]
  · rw [decide_eq_false hodd, Bool.eq_false_iff]
    intro h
    obtain ⟨z, hz⟩ := isQuarter_near h
    unfold gradeEpsilon at hz
    rw [abs_lt] at hz
    have h1 : (n - (2 * z + 1) : ℚ) < 1 := by linarith [hz.2]
    have h2 : (-1 : ℚ) < n - (2 * z + 1) := by linarith [hz.1]
    have h1' : n - (2 * z + 1) < 1 := by exact_mod_cast h1
    have h2' : -1 < n - (2 * z + 1) := by exact_mod_cast h2
    omega

theorem grid_below (n : Int) : (n : ℚ) / 4 - 1 / 4 = ((n - 1 : Int) : ℚ) / 4 := by
  push_cast
  ring

theorem grid_above (n : Int) : (n : ℚ) / 4 + 1 / 4 = ((n + 1 : Int) : ℚ) / 4 := by
  push_cast
  ring

/-- The two halves of an odd margin give the grade of the margin. -/
theorem combine_margin {d : Int} (hd : d % 2 = 1) :
    combine (marginGrade (d - 1)) (marginGrade (d + 1)) = marginGrade d := by
  rcases marginGrade_cases (d - 1) with ⟨h₁, e₁⟩ | ⟨h₁, e₁⟩ | ⟨h₁, e₁⟩ | ⟨h₁, e₁⟩ | ⟨h₁, e₁⟩ <;>
    rcases marginGrade_cases (d + 1) with ⟨h₂, e₂⟩ | ⟨h₂, e₂⟩ | ⟨h₂, e₂⟩ | ⟨h₂, e₂⟩ | ⟨h₂, e₂⟩ <;>
    rcases marginGrade_cases d with ⟨h₃, e₃⟩ | ⟨h₃, e₃⟩ | ⟨h₃, e₃⟩ | ⟨h₃, e₃⟩ | ⟨h₃, e₃⟩ <;>
    first
      | omega
      | (rw [e₁, e₂, e₃]
         decide)

theorem combine_comm (x y : Graded) : combine x y = combine y x := by
  unfold combine
  grind

theorem mirror_margin (d : Int) : mirror (marginGrade d) = marginGrade (-d) := by
  rcases marginGrade_cases d with ⟨h₁, e₁⟩ | ⟨h₁, e₁⟩ | ⟨h₁, e₁⟩ | ⟨h₁, e₁⟩ | ⟨h₁, e₁⟩ <;>
    rcases marginGrade_cases (-d) with ⟨h₂, e₂⟩ | ⟨h₂, e₂⟩ | ⟨h₂, e₂⟩ | ⟨h₂, e₂⟩ | ⟨h₂, e₂⟩ <;>
    first
      | omega
      | (rw [e₁, e₂]
         decide)

/-- A better margin has no worse rank. -/
theorem rank_margin_mono {d d' : Int} (h : d ≤ d') :
    (marginGrade d).rank ≤ (marginGrade d').rank := by
  rcases marginGrade_cases d with ⟨h₁, e₁⟩ | ⟨h₁, e₁⟩ | ⟨h₁, e₁⟩ | ⟨h₁, e₁⟩ | ⟨h₁, e₁⟩ <;>
    rcases marginGrade_cases d' with ⟨h₂, e₂⟩ | ⟨h₂, e₂⟩ | ⟨h₂, e₂⟩ | ⟨h₂, e₂⟩ | ⟨h₂, e₂⟩ <;>
    first
      | omega
      | (simp only [e₁, e₂]
         decide)

/-- The margin of the high side, in quarters. -/
def highMargin (kind : String) (value : Int) (n : Int) : Int :=
  if kind = "handicap" then 4 * value + n else 4 * value - n

theorem gradeHigh_even (kind : String) (value : Int) {n : Int} (hn : n % 2 = 0) :
    gradeHigh kind value ((n : ℚ) / 4) = marginGrade (highMargin kind value n) := by
  unfold gradeHigh
  have hflat : isQuarter ((n : ℚ) / 4) = false := by
    rw [isQuarter_grid, decide_eq_false]
    omega
  rw [if_neg (by rw [hflat]; decide)]
  have hdiff : (if kind = "handicap" then (value : ℚ) + n / 4 else value - n / 4) =
      (highMargin kind value n : ℚ) / 4 := by
    unfold highMargin
    split
    · push_cast
      ring
    · push_cast
      ring
  have heven : highMargin kind value n % 2 = 0 := by
    unfold highMargin
    split <;> omega
  simp only [hdiff]
  unfold gradeEpsilon
  generalize highMargin kind value n = d at heven
  -- an even margin is off the push by half a unit or more
  rcases lt_trichotomy d 0 with hneg | rfl | hpos
  · have h2 : (d : ℚ) ≤ -2 := by exact_mod_cast (show d ≤ -2 by omega)
    rw [if_neg (by linarith), if_pos (by linarith)]
    unfold marginGrade
    rw [if_neg (by omega), if_neg (by omega), if_neg (by omega), if_neg (by omega)]
  · norm_num
    rfl
  · have h2 : (2 : ℚ) ≤ d := by exact_mod_cast (show 2 ≤ d by omega)
    rw [if_pos (by linarith)]
    unfold marginGrade
    rw [if_pos (by omega)]

/-- On the quarter grid the grade is that of the margin in quarters. -/
theorem gradeHigh_grid (kind : String) (value n : Int) :
    gradeHigh kind value ((n : ℚ) / 4) = marginGrade (highMargin kind value n) := by
  by_cases hn : n % 2 = 1
  · have hquarter : isQuarter ((n : ℚ) / 4) = true := by
      rw [isQuarter_grid, decide_eq_true hn]
    have hbelow := gradeHigh_even kind value (show (n - 1) % 2 = 0 by omega)
    have habove := gradeHigh_even kind value (show (n + 1) % 2 = 0 by omega)
    have hhalves : gradeHigh kind value ((n : ℚ) / 4) =
        combine (marginGrade (highMargin kind value (n - 1)))
          (marginGrade (highMargin kind value (n + 1))) := by
      have hstep : gradeHigh kind value ((n : ℚ) / 4) =
          combine (gradeHigh kind value ((n : ℚ) / 4 - 1 / 4))
            (gradeHigh kind value ((n : ℚ) / 4 + 1 / 4)) := by
        conv_lhs => unfold gradeHigh
        exact if_pos hquarter
      rw [hstep, grid_below, grid_above, hbelow, habove]
    refine hhalves.trans ?_
    unfold highMargin
    split
    · rw [show 4 * value + (n - 1) = 4 * value + n - 1 by omega,
        show 4 * value + (n + 1) = 4 * value + n + 1 by omega]
      exact combine_margin (by omega)
    · -- the line a quarter below is the better half of a total
      rw [show 4 * value - (n - 1) = 4 * value - n + 1 by omega,
        show 4 * value - (n + 1) = 4 * value - n - 1 by omega, combine_comm]
      exact combine_margin (by omega)
  · exact gradeHigh_even kind value (by omega)

end Oddzilla
