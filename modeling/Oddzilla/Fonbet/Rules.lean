import Oddzilla.Settler.Ladder

/-!
# Grading rules of the Fonbet ingester

Its own copy of the arithmetic on lines.  Both sides are graded at once: over and
under for a total, home and away for a handicap, whose line is the home side's.
-/

namespace Oddzilla.Fonbet

def combine (x y : Graded) : Graded :=
  if x = gWon ∧ y = gWon then gWon
  else if x = gLost ∧ y = gLost then gLost
  else if (x = gWon ∧ y = gVoid) ∨ (x = gVoid ∧ y = gWon) then gHalfWon
  else if (x = gLost ∧ y = gVoid) ∨ (x = gVoid ∧ y = gLost) then gHalfLost
  else gVoid

def mirror (g : Graded) : Graded :=
  if g = gWon then gLost
  else if g = gLost then gWon
  else if g = gHalfWon then gHalfLost
  else if g = gHalfLost then gHalfWon
  else gVoid

theorem combine_eq : combine = Oddzilla.combine := rfl

theorem mirror_eq : mirror = Oddzilla.mirror := rfl

def gradeTotal (total : Int) (line : ℚ) : Graded × Graded :=
  if isQuarter line = true then
    let o := combine (gradeTotal total (line - 1 / 4)).1 (gradeTotal total (line + 1 / 4)).1
    (o, mirror o)
  else if line < total then (gWon, gLost)
  else if total < line then (gLost, gWon)
  else (gVoid, gVoid)
termination_by (isQuarter line).toNat
decreasing_by
  · exact quarter_below ‹_›
  · exact quarter_above ‹_›

def gradeHandicap (h a : Int) (line : ℚ) : Graded × Graded :=
  if isQuarter line = true then
    let r1 := combine (gradeHandicap h a (line - 1 / 4)).1 (gradeHandicap h a (line + 1 / 4)).1
    (r1, mirror r1)
  else
    let diff : ℚ := h + line - a
    if 0 < diff then (gWon, gLost)
    else if diff < 0 then (gLost, gWon)
    else (gVoid, gVoid)
termination_by (isQuarter line).toNat
decreasing_by
  · exact quarter_below ‹_›
  · exact quarter_above ‹_›

/-! ## The quarter grid -/

theorem not_isQuarter_even {n : Int} (hn : n % 2 = 0) : ¬ isQuarter ((n : ℚ) / 4) = true := by
  rw [isQuarter_grid, decide_eq_true_iff]
  omega

/-- The grades of the two sides on an even margin. -/
theorem flat_margin {d : Int} (hd : d % 2 = 0) {x : ℚ} (hx : x = (d : ℚ) / 4) :
    (if 0 < x then (gWon, gLost) else if x < 0 then (gLost, gWon) else (gVoid, gVoid)) =
      (marginGrade d, marginGrade (-d)) := by
  subst hx
  rcases lt_trichotomy d 0 with hneg | rfl | hpos
  · have h2 : (d : ℚ) < 0 := by exact_mod_cast hneg
    rw [if_neg (by linarith), if_pos (by linarith)]
    unfold marginGrade
    rw [if_neg (by omega), if_neg (by omega), if_neg (by omega), if_neg (by omega),
      if_pos (by omega)]
  · norm_num
    rfl
  · have h2 : (0 : ℚ) < d := by exact_mod_cast hpos
    rw [if_pos (by linarith)]
    unfold marginGrade
    rw [if_pos (by omega), if_neg (by omega), if_neg (by omega), if_neg (by omega),
      if_neg (by omega)]

theorem gradeTotal_even (total : Int) {n : Int} (hn : n % 2 = 0) :
    gradeTotal total ((n : ℚ) / 4) =
      (marginGrade (4 * total - n), marginGrade (-(4 * total - n))) := by
  unfold gradeTotal
  rw [if_neg (not_isQuarter_even hn), ← flat_margin (show (4 * total - n) % 2 = 0 by omega)
    (show (total : ℚ) - n / 4 = _ by push_cast; ring)]
  simp only [sub_pos, sub_neg]

theorem gradeTotal_grid (total n : Int) : gradeTotal total ((n : ℚ) / 4) =
    (marginGrade (4 * total - n), marginGrade (-(4 * total - n))) := by
  by_cases hn : n % 2 = 1
  · have hquarter : isQuarter ((n : ℚ) / 4) = true := by
      rw [isQuarter_grid, decide_eq_true hn]
    have hbelow := gradeTotal_even total (show (n - 1) % 2 = 0 by omega)
    have habove := gradeTotal_even total (show (n + 1) % 2 = 0 by omega)
    have hover : combine (gradeTotal total ((n : ℚ) / 4 - 1 / 4)).1
        (gradeTotal total ((n : ℚ) / 4 + 1 / 4)).1 = marginGrade (4 * total - n) := by
      rw [grid_below, grid_above, hbelow, habove, combine_eq, combine_comm,
        show 4 * total - (n + 1) = 4 * total - n - 1 by omega,
        show 4 * total - (n - 1) = 4 * total - n + 1 by omega]
      exact combine_margin (by omega)
    conv_lhs => unfold gradeTotal
    refine (if_pos hquarter).trans ?_
    simp only [hover, mirror_eq, mirror_margin]
  · exact gradeTotal_even total (by omega)

theorem gradeHandicap_even (h a : Int) {n : Int} (hn : n % 2 = 0) :
    gradeHandicap h a ((n : ℚ) / 4) =
      (marginGrade (4 * (h - a) + n), marginGrade (-(4 * (h - a) + n))) := by
  unfold gradeHandicap
  rw [if_neg (not_isQuarter_even hn)]
  exact flat_margin (show (4 * (h - a) + n) % 2 = 0 by omega) (by push_cast; ring)

theorem gradeHandicap_grid (h a n : Int) : gradeHandicap h a ((n : ℚ) / 4) =
    (marginGrade (4 * (h - a) + n), marginGrade (-(4 * (h - a) + n))) := by
  by_cases hn : n % 2 = 1
  · have hquarter : isQuarter ((n : ℚ) / 4) = true := by
      rw [isQuarter_grid, decide_eq_true hn]
    have hbelow := gradeHandicap_even h a (show (n - 1) % 2 = 0 by omega)
    have habove := gradeHandicap_even h a (show (n + 1) % 2 = 0 by omega)
    have hhome : combine (gradeHandicap h a ((n : ℚ) / 4 - 1 / 4)).1
        (gradeHandicap h a ((n : ℚ) / 4 + 1 / 4)).1 = marginGrade (4 * (h - a) + n) := by
      rw [grid_below, grid_above, hbelow, habove, combine_eq,
        show 4 * (h - a) + (n - 1) = 4 * (h - a) + n - 1 by omega,
        show 4 * (h - a) + (n + 1) = 4 * (h - a) + n + 1 by omega]
      exact combine_margin (by omega)
    conv_lhs => unfold gradeHandicap
    refine (if_pos hquarter).trans ?_
    simp only [hhome, mirror_eq, mirror_margin]
  · exact gradeHandicap_even h a (by omega)

end Oddzilla.Fonbet
