import Oddzilla.Fonbet.Rules
import Oddzilla.Logic.Handlers

/-!
# Two graders of lines

The Fonbet ingester grades totals and handicaps for the wire, the settlement
service grades them again when it infers a line from its siblings.  On the
quarter grid both give the grade of the margin in quarters, and what the wire
form of the grade pays is the average of two half-stakes.
-/

namespace Oddzilla.Theorems

/-! ## Half-stakes -/

/-- What a unit stake at `odds` pays on a margin: won, lost, or back on a push. -/
def stakePays (odds margin : ℚ) : ℚ :=
  if 0 < margin then odds else if margin < 0 then 0 else 1

/-- The lines of the two half-stakes. -/
def halfLines (line : ℚ) : ℚ × ℚ :=
  if isQuarter line then (line - 1 / 4, line + 1 / 4) else (line, line)

/-- The margins of the two half-stakes on a margin of `d` quarters. -/
def halfMargins (d : Int) : Int × Int := if d % 2 = 1 then (d - 1, d + 1) else (d, d)

/-- A settlement with this wire form pays `pays` a unit at every price. -/
def PaysAs (g : Graded) (pays : ℚ → ℚ) : Prop :=
  ∀ id odds, ∃ r vf, FeedOutcome.verdict ⟨id, g.res, g.vf⟩ = .ok (r, vf) ∧
    effectiveFactor odds (some r) vf = if odds ≤ 0 then .error (.msg "odds") else .ok (pays odds)

theorem paysAs_of_verdict {g : Graded} (r : OutcomeResult) (vf : Option ℚ) {pays : ℚ → ℚ}
    (hv : FeedOutcome.verdict ⟨"", g.res, g.vf⟩ = .ok (r, vf))
    (hp : ∀ odds, 0 < odds → effectiveFactor odds (some r) vf = .ok (pays odds)) : PaysAs g pays := by
  intro id odds
  refine ⟨r, vf, hv, ?_⟩
  split
  · next h =>
    unfold effectiveFactor
    exact if_pos h
  · next h => exact hp odds (not_le.mp h)

/-- What the wire forms of a full and a half void factor are read as. -/
theorem verdict_halves :
    FeedOutcome.verdict ⟨"", gVoid.res, gVoid.vf⟩ = .ok (.void, some 1) ∧
    FeedOutcome.verdict ⟨"", gHalfWon.res, gHalfWon.vf⟩ = .ok (.halfWon, some (1 / 2)) ∧
    FeedOutcome.verdict ⟨"", gHalfLost.res, gHalfLost.vf⟩ = .ok (.halfLost, some (1 / 2)) := by
  decide +kernel

theorem paysAs_won : PaysAs gWon fun odds => odds := by
  refine paysAs_of_verdict .won none (by decide) fun odds h => ?_
  unfold effectiveFactor
  rw [if_neg (not_le.mpr h)]
  simp

theorem paysAs_lost : PaysAs gLost fun _ => 0 := by
  refine paysAs_of_verdict .lost none (by decide) fun odds h => ?_
  unfold effectiveFactor
  rw [if_neg (not_le.mpr h)]
  simp

theorem paysAs_void : PaysAs gVoid fun _ => 1 := by
  refine paysAs_of_verdict .void (some 1) verdict_halves.1 fun odds h => ?_
  unfold effectiveFactor
  rw [if_neg (not_le.mpr h)]
  simp

theorem paysAs_halfWon : PaysAs gHalfWon fun odds => (odds + 1) / 2 := by
  refine paysAs_of_verdict .halfWon (some (1 / 2)) verdict_halves.2.1
    fun odds h => ?_
  unfold effectiveFactor
  rw [if_neg (not_le.mpr h)]
  norm_num
  ring

theorem paysAs_halfLost : PaysAs gHalfLost fun _ => 1 / 2 := by
  refine paysAs_of_verdict .halfLost (some (1 / 2)) verdict_halves.2.2
    fun odds h => ?_
  unfold effectiveFactor
  rw [if_neg (not_le.mpr h)]
  norm_num

theorem PaysAs.congr {g : Graded} {p q : ℚ → ℚ} (h : PaysAs g p) (he : ∀ odds, p odds = q odds) :
    PaysAs g q := by
  rwa [show p = q from funext he] at h

/-- The sign of a margin in quarters decides what the stake pays. -/
theorem stakePays_quarters (odds : ℚ) (d : Int) : stakePays odds ((d : ℚ) / 4) =
    if 0 < d then odds else if d < 0 then 0 else 1 := by
  have hpos : 0 < (d : ℚ) / 4 ↔ 0 < d := by
    rw [div_pos_iff_of_pos_right (by norm_num), Int.cast_pos]
  have hneg : (d : ℚ) / 4 < 0 ↔ d < 0 := by
    rw [div_lt_iff₀ (by norm_num), zero_mul, Int.cast_lt_zero]
  unfold stakePays
  simp only [hpos, hneg]

/-- A grade pays the average of the half-stakes on its margin. -/
theorem paysAs_margin (d : Int) : PaysAs (marginGrade d) fun odds =>
    (stakePays odds (((halfMargins d).1 : ℚ) / 4) + stakePays odds (((halfMargins d).2 : ℚ) / 4)) / 2 := by
  unfold halfMargins
  simp only [stakePays_quarters]
  rcases marginGrade_cases d with ⟨h, e⟩ | ⟨rfl, e⟩ | ⟨rfl, e⟩ | ⟨rfl, e⟩ | ⟨h, e⟩ <;> rw [e]
  · refine paysAs_won.congr fun odds => ?_
    have h₁ : 0 < (if d % 2 = 1 then (d - 1, d + 1) else (d, d)).1 := by split <;> omega
    have h₂ : 0 < (if d % 2 = 1 then (d - 1, d + 1) else (d, d)).2 := by split <;> omega
    rw [if_pos h₁, if_pos h₂]
    ring
  · refine paysAs_halfWon.congr fun odds => ?_
    norm_num
    ring
  · refine paysAs_void.congr fun odds => ?_
    norm_num
  · refine paysAs_halfLost.congr fun odds => ?_
    norm_num
  · refine paysAs_lost.congr fun odds => ?_
    have h₁ : (if d % 2 = 1 then (d - 1, d + 1) else (d, d)).1 < 0 := by split <;> omega
    have h₂ : (if d % 2 = 1 then (d - 1, d + 1) else (d, d)).2 < 0 := by split <;> omega
    rw [if_neg (by omega), if_pos h₁, if_neg (by omega), if_pos h₂]
    norm_num

/-! ## Half-stakes of a line -/

theorem halfLines_grid (n : Int) :
    halfLines ((n : ℚ) / 4) = (((halfMargins n).1 : ℚ) / 4, ((halfMargins n).2 : ℚ) / 4) := by
  unfold halfLines halfMargins
  rw [isQuarter_grid]
  by_cases hn : n % 2 = 1
  · simp only [hn, decide_true, if_true]
    rw [grid_below, grid_above]
  · simp only [hn, decide_false, if_false, Bool.false_eq_true]

/-- The margins of the half-stakes of a side whose margin grows with the line. -/
theorem halfMargins_add (c n : Int) :
    halfMargins (4 * c + n) = (4 * c + (halfMargins n).1, 4 * c + (halfMargins n).2) := by
  unfold halfMargins
  split <;> split
  · ext <;> dsimp only <;> omega
  · omega
  · omega
  · rfl

/-- The same for a side whose margin falls with the line: the halves change
places. -/
theorem halfMargins_sub (c n : Int) :
    halfMargins (4 * c - n) = (4 * c - (halfMargins n).2, 4 * c - (halfMargins n).1) := by
  unfold halfMargins
  split <;> split
  · ext <;> dsimp only <;> omega
  · omega
  · omega
  · rfl

theorem paysAs_growing (c n : Int) : PaysAs (marginGrade (4 * c + n)) fun odds =>
    (stakePays odds (c + (halfLines ((n : ℚ) / 4)).1) +
      stakePays odds (c + (halfLines ((n : ℚ) / 4)).2)) / 2 := by
  refine (paysAs_margin (4 * c + n)).congr fun odds => ?_
  rw [halfLines_grid, halfMargins_add]
  push_cast
  rw [show ((4 : ℚ) * c + (halfMargins n).1) / 4 = c + (halfMargins n).1 / 4 by ring,
    show ((4 : ℚ) * c + (halfMargins n).2) / 4 = c + (halfMargins n).2 / 4 by ring]

theorem paysAs_falling (c n : Int) : PaysAs (marginGrade (4 * c - n)) fun odds =>
    (stakePays odds (c - (halfLines ((n : ℚ) / 4)).1) +
      stakePays odds (c - (halfLines ((n : ℚ) / 4)).2)) / 2 := by
  refine (paysAs_margin (4 * c - n)).congr fun odds => ?_
  rw [halfLines_grid, halfMargins_sub]
  push_cast
  rw [show ((4 : ℚ) * c - (halfMargins n).1) / 4 = c - (halfMargins n).1 / 4 by ring,
    show ((4 : ℚ) * c - (halfMargins n).2) / 4 = c - (halfMargins n).2 / 4 by ring]
  ring

/-! ## Agreement -/

/-- On every line of the quarter grid the Fonbet grader gives what the settlement
service's ladder gives, its two sides are mirror images, exchanging the teams
exchanges them, they are monotone in the line, and each pays the average of the
two half-stakes. -/
theorem line_grades :
    (∀ total n : Int, Fonbet.gradeTotal total ((n : ℚ) / 4) =
      (gradeHigh "threshold" total ((n : ℚ) / 4), mirror (gradeHigh "threshold" total ((n : ℚ) / 4)))) ∧
    (∀ h a n : Int, Fonbet.gradeHandicap h a ((n : ℚ) / 4) =
      (gradeHigh "handicap" (h - a) ((n : ℚ) / 4),
        mirror (gradeHigh "handicap" (h - a) ((n : ℚ) / 4)))) ∧
    (∀ h a n : Int, Fonbet.gradeHandicap a h (-((n : ℚ) / 4)) =
      (Fonbet.gradeHandicap h a ((n : ℚ) / 4)).swap) ∧
    (∀ total : Int, Antitone (fun n : Int => (Fonbet.gradeTotal total ((n : ℚ) / 4)).1.rank) ∧
      Monotone fun n : Int => (Fonbet.gradeTotal total ((n : ℚ) / 4)).2.rank) ∧
    (∀ h a : Int, Monotone (fun n : Int => (Fonbet.gradeHandicap h a ((n : ℚ) / 4)).1.rank) ∧
      Antitone fun n : Int => (Fonbet.gradeHandicap h a ((n : ℚ) / 4)).2.rank) ∧
    (∀ total n : Int, let l := halfLines ((n : ℚ) / 4)
      PaysAs (Fonbet.gradeTotal total ((n : ℚ) / 4)).1
        (fun odds => (stakePays odds (total - l.1) + stakePays odds (total - l.2)) / 2) ∧
      PaysAs (Fonbet.gradeTotal total ((n : ℚ) / 4)).2
        (fun odds => (stakePays odds (l.1 - total) + stakePays odds (l.2 - total)) / 2)) ∧
    (∀ h a n : Int, let l := halfLines ((n : ℚ) / 4)
      PaysAs (Fonbet.gradeHandicap h a ((n : ℚ) / 4)).1
        (fun odds => (stakePays odds (h + l.1 - a) + stakePays odds (h + l.2 - a)) / 2) ∧
      PaysAs (Fonbet.gradeHandicap h a ((n : ℚ) / 4)).2
        (fun odds => (stakePays odds (a - l.1 - h) + stakePays odds (a - l.2 - h)) / 2)) := by
  refine ⟨fun total n => ?_, fun h a n => ?_, fun h a n => ?_, fun total => ⟨fun n n' hn => ?_,
    fun n n' hn => ?_⟩, fun h a => ⟨fun n n' hn => ?_, fun n n' hn => ?_⟩, fun total n => ?_,
    fun h a n => ?_⟩
  · -- both implementations grade the margin in quarters
    rw [Fonbet.gradeTotal_grid, gradeHigh_grid, mirror_margin]
    rfl
  · rw [Fonbet.gradeHandicap_grid, gradeHigh_grid, mirror_margin]
    rfl
  · rw [show -((n : ℚ) / 4) = ((-n : Int) : ℚ) / 4 by push_cast; ring, Fonbet.gradeHandicap_grid,
      Fonbet.gradeHandicap_grid, show 4 * (a - h) + -n = -(4 * (h - a) + n) by ring, neg_neg]
    rfl
  · simp only [Fonbet.gradeTotal_grid]
    exact rank_margin_mono (by omega)
  · simp only [Fonbet.gradeTotal_grid]
    exact rank_margin_mono (by omega)
  · simp only [Fonbet.gradeHandicap_grid]
    exact rank_margin_mono (by omega)
  · simp only [Fonbet.gradeHandicap_grid]
    exact rank_margin_mono (by omega)
  · rw [Fonbet.gradeTotal_grid]
    refine ⟨paysAs_falling total n, ?_⟩
    rw [show -(4 * total - n) = 4 * (-total) + n by ring]
    refine (paysAs_growing (-total) n).congr fun odds => ?_
    push_cast
    rw [neg_add_eq_sub, neg_add_eq_sub]
  · rw [Fonbet.gradeHandicap_grid]
    refine ⟨(paysAs_growing (h - a) n).congr fun odds => ?_, ?_⟩
    · push_cast
      rw [sub_add_eq_add_sub, sub_add_eq_add_sub]
    · rw [show -(4 * (h - a) + n) = 4 * (a - h) - n by ring]
      refine (paysAs_falling (a - h) n).congr fun odds => ?_
      push_cast
      rw [sub_right_comm, sub_right_comm (a : ℚ) h]

/-- A quarter line pays half the price and half the stake back. -/
example : Fonbet.gradeTotal 3 (11 / 4) = (gHalfWon, gHalfLost) := by
  rw [show (11 : ℚ) / 4 = ((11 : Int) : ℚ) / 4 by norm_num, Fonbet.gradeTotal_grid]
  rfl

end Oddzilla.Theorems
