import Oddzilla.Feed.Specifiers
import Oddzilla.Lib.Scan
import Oddzilla.Lib.Text
import Oddzilla.Settler.Ladder

/-!
# Inferring an open line from its settled siblings

`inferLine` and what it is handed by `OpenLadderLinesWithSettledSiblings`: the
family's line key, the open line and, for each settled sibling, its line and the
aggregated text of its outcome rows.  A line is read with `ParseFloat`; what is
read is taken exactly.
-/

namespace Oddzilla

open Text (trimSpace parseFloat Parsed)

/-! ## What the query hands over -/

/-- `outcome_result::text` -/
def OutcomeResult.text : OutcomeResult → String
  | .won => "won"
  | .lost => "lost"
  | .void => "void"
  | .halfWon => "half_won"
  | .halfLost => "half_lost"

/-- A settled outcome row of a sibling: its void factor is a `NUMERIC` text or empty. -/
structure LadderOutcome where
  id : OutcomeId
  result : OutcomeResult
  voidFactor : String
  id_clean : ',' ∉ id.toList ∧ ':' ∉ id.toList
  void_clean : ',' ∉ voidFactor.toList

/-- `outcome_id || ':' || result::text || ':' || COALESCE(void_factor::text, '')` -/
def LadderOutcome.text (row : LadderOutcome) : List Char :=
  row.id.toList ++ ':' :: (row.result.text.toList ++ ':' :: row.voidFactor.toList)

/-- `string_agg(…, ',')` -/
def resultsText (rows : List LadderOutcome) : List Char :=
  [','].intercalate (rows.map LadderOutcome.text)

structure LadderSibling where
  line : String
  results : List Char

/-! ## Reading a sibling -/

/-- `fromStored`: a result column on the wire. -/
def fromStored (result : List Char) : Option Graded :=
  if result = "won".toList then some gWon
  else if result = "lost".toList then some gLost
  else if result = "void".toList then some gVoid
  else if result = "half_won".toList then some gHalfWon
  else if result = "half_lost".toList then some gHalfLost
  else none

/-- The first two of the fields that `SplitN(part, ":", 3)` leaves. -/
def resultEntry (part : List Char) : Option SpecifierPair :=
  match splitOnChar ':' part with
  | id :: result :: _ => some (id, result)
  | _ => none

/-- The map of the sibling's outcomes; a later entry replaces an earlier one. -/
def resultOf (results : List Char) (id : String) : List Char :=
  ((lastPair ((splitOnChar ',' results).filterMap resultEntry) id.toList).map Prod.snd).getD []

/-- The high side's result, when both sides are there and mirror each other. -/
def siblingResult (results : List Char) (hiId loId : String) : Option Graded :=
  match fromStored (resultOf results hiId), fromStored (resultOf results loId) with
  | some hi, some lo => if mirror hi = lo then some hi else none
  | _, _ => none

/-! ## Grading against a read line -/

/-- `gradeHigh` on what `ParseFloat` returns: no margin to an infinite line is
finite, and none to `NaN` compares. -/
def gradeAt (kind : String) (value : Int) : Parsed → Graded
  | .nan => gVoid
  | .inf negative => if (kind = "handicap") = (negative = false) then gWon else gLost
  | .num line => gradeHigh kind value line

/-- `valueRange` -/
def valueRange : Nat := 500

/-- The outcome that wins when the number is high, and the one when it is low. -/
def ladderSides (lineKey outcomeIds : String) : Except String (String × String) :=
  if lineKey = "threshold" then
    if outcomeIds ≠ "4,5" then .error "not an over/under total" else .ok ("5", "4")
  else if lineKey = "handicap" then
    if outcomeIds ≠ "1,2" then .error "not a home/away handicap" else .ok ("1", "2")
  else .error "unknown line key"

/-- The interval the siblings have left, and the siblings that were used. -/
structure Interval where
  lo : Int := -valueRange
  hi : Int := valueRange
  used : List String := []

/-- The line and the high side's result of a sibling that can be read. -/
def readSibling (hiId loId : String) (sib : LadderSibling) : Option (Parsed × Graded) :=
  match parseFloat (trimSpace sib.line.toList), siblingResult sib.results hiId loId with
  | some x, some observed => some (x, observed)
  | _, _ => none

/-- What is left of the interval within these ends. -/
def Interval.within (s : Interval) (e : Int × Int) (used : String) : Interval :=
  { lo := if s.lo < e.1 then e.1 else s.lo
    hi := if e.2 < s.hi then e.2 else s.hi
    used := s.used ++ [used] }

/-- One sibling's turn of the loop. -/
def narrow (lineKey hiId loId : String) (s : Interval) (sib : LadderSibling) : Interval :=
  match readSibling hiId loId sib with
  | none => s
  | some (x, observed) =>
    let e := Scan.ends (fun v => decide (gradeAt lineKey v x = observed)) valueRange
    -- no integer reproduces the stored result: the sibling is ignored
    if e.2 < e.1 then s
    else s.within e (lineKey ++ "=" ++ String.ofList (trimSpace sib.line.toList))

/-- The two settled outcomes in the order of their ids. -/
def settledOutcomes (hiId loId : String) (high : Graded) : List FeedOutcome :=
  let hi : FeedOutcome := ⟨hiId, high.res, high.vf⟩
  let lo : FeedOutcome := ⟨loId, (mirror high).res, (mirror high).vf⟩
  if loId < hiId then [lo, hi] else [hi, lo]

/-- The end of `inferLine`: the settled outcomes and what decided them, or the
reason of the refusal. -/
def decideLine (lineKey hiId loId : String) (y : Parsed) (s : Interval) :
    Except String (List FeedOutcome × String) :=
  if s.used = [] then .error "no usable sibling"
  else if s.hi < s.lo then .error "siblings disagree"
  else if s.lo = -valueRange ∧ s.hi = valueRange then .error "no usable sibling"
  else
    let gLo := gradeAt lineKey s.lo y
    let gHi := gradeAt lineKey s.hi y
    if gLo.rank < 0 ∨ gLo ≠ gHi then .error "no sibling decides it"
    else
      let used := ",".intercalate s.used
      .ok (settledOutcomes hiId loId gLo,
        if s.lo = s.hi then used ++ " (value " ++ toString s.lo ++ ")"
        else used ++ " (value " ++ toString s.lo ++ ".." ++ toString s.hi ++ ")")

def inferLine (lineKey openLine outcomeIds : String) (siblings : List LadderSibling) :
    Except String (List FeedOutcome × String) :=
  match parseFloat (trimSpace openLine.toList) with
  | none => .error "unreadable line"
  | some y => do
    let (hiId, loId) ← ladderSides lineKey outcomeIds
    decideLine lineKey hiId loId y (siblings.foldl (narrow lineKey hiId loId) {})

theorem Interval.mem_within {s : Interval} {e : Int × Int} {used : String} {w : Int} :
    (s.within e used).lo ≤ w ∧ w ≤ (s.within e used).hi ↔
      (s.lo ≤ w ∧ w ≤ s.hi) ∧ e.1 ≤ w ∧ w ≤ e.2 := by
  show (if s.lo < e.1 then e.1 else s.lo) ≤ w ∧ w ≤ (if e.2 < s.hi then e.2 else s.hi) ↔ _
  constructor
  · intro h
    split at h <;> split at h <;> omega
  · intro h
    split <;> split <;> omega

theorem Interval.within_bounds (s : Interval) (e : Int × Int) (used : String) :
    s.lo ≤ (s.within e used).lo ∧ (s.within e used).hi ≤ s.hi := by
  show s.lo ≤ (if s.lo < e.1 then e.1 else s.lo) ∧ (if e.2 < s.hi then e.2 else s.hi) ≤ s.hi
  split <;> split <;> omega

/-! ## The five grades -/

/-- The grades of the wire. -/
def grades : List Graded := [gLost, gHalfLost, gVoid, gHalfWon, gWon]

/-- The grades of a line that is not a quarter line. -/
def flatGrades : List Graded := [gLost, gVoid, gWon]

def ofRank (n : Int) : Graded :=
  if n = 0 then gLost else if n = 1 then gHalfLost else if n = 2 then gVoid
  else if n = 3 then gHalfWon else gWon

theorem ofRank_rank : ∀ g ∈ grades, ofRank g.rank = g := by decide

theorem rank_injective {g g' : Graded} (hg : g ∈ grades) (hg' : g' ∈ grades)
    (h : g.rank = g'.rank) : g = g' := by
  rw [← ofRank_rank g hg, h, ofRank_rank g' hg']

theorem rank_nonneg : ∀ g ∈ grades, 0 ≤ g.rank := by decide

theorem flat_mem_grades : ∀ g ∈ flatGrades, g ∈ grades := by decide

theorem combine_mem : ∀ x ∈ flatGrades, ∀ y ∈ flatGrades, combine x y ∈ grades := by decide

/-- The grade of two half-stakes is halfway between theirs. -/
theorem combine_rank : ∀ x ∈ flatGrades, ∀ y ∈ flatGrades,
    2 * (combine x y).rank = x.rank + y.rank := by decide

/-! ## Grades over the settled number -/

variable (kind : String) {v w : Int}

/-- The grade of a line that is not split. -/
def gradeFlat (value : Int) (line : ℚ) : Graded :=
  let diff : ℚ := if kind = "handicap" then value + line else value - line
  if gradeEpsilon < diff then gWon
  else if diff < -gradeEpsilon then gLost
  else gVoid

theorem gradeHigh_flat {value : Int} {line : ℚ} (h : isQuarter line = false) :
    gradeHigh kind value line = gradeFlat kind value line := by
  conv_lhs => unfold gradeHigh
  exact if_neg (by rw [h]; decide)

theorem gradeHigh_quarter {value : Int} {line : ℚ} (h : isQuarter line = true) :
    gradeHigh kind value line =
      combine (gradeFlat kind value (line - 1 / 4)) (gradeFlat kind value (line + 1 / 4)) := by
  have hbelow : isQuarter (line - 1 / 4) = false := by
    rw [show line - 1 / 4 = line + -1 / 4 by ring]
    exact not_isQuarter_half h (.inr rfl)
  have habove := not_isQuarter_half h (.inl rfl)
  have hsplit : gradeHigh kind value line =
      combine (gradeHigh kind value (line - 1 / 4)) (gradeHigh kind value (line + 1 / 4)) := by
    conv_lhs => unfold gradeHigh
    exact if_pos h
  rw [hsplit, gradeHigh_flat kind hbelow, gradeHigh_flat kind habove]

theorem gradeFlat_mem (value : Int) (line : ℚ) : gradeFlat kind value line ∈ flatGrades := by
  unfold gradeFlat
  generalize (if kind = "handicap" then (value : ℚ) + line else value - line) = d
  simp only
  split
  · decide
  · split <;> decide

theorem gradeFlat_mono (h : v ≤ w) (line : ℚ) :
    (gradeFlat kind v line).rank ≤ (gradeFlat kind w line).rank := by
  have hvw : (v : ℚ) ≤ w := by exact_mod_cast h
  have hdiff : (if kind = "handicap" then (v : ℚ) + line else v - line) ≤
      if kind = "handicap" then (w : ℚ) + line else w - line := by
    split <;> linarith
  have hε : 0 < gradeEpsilon := by unfold gradeEpsilon; norm_num
  have hlost : gLost.rank = 0 := by decide
  have hvoid : gVoid.rank = 2 := by decide
  have hwon : gWon.rank = 4 := by decide
  unfold gradeFlat
  simp only
  generalize (if kind = "handicap" then (v : ℚ) + line else v - line) = d at hdiff
  generalize (if kind = "handicap" then (w : ℚ) + line else w - line) = d' at hdiff
  split
  · next h1 => rw [if_pos (lt_of_lt_of_le h1 hdiff)]
  · split
    · rw [hlost]
      split
      · omega
      · split <;> omega
    · next h1 h2 =>
      rw [hvoid]
      split
      · omega
      · rw [if_neg (by linarith), hvoid]

/-- A higher number grades the high side no worse. -/
theorem gradeHigh_mono (h : v ≤ w) (line : ℚ) :
    (gradeHigh kind v line).rank ≤ (gradeHigh kind w line).rank := by
  by_cases hq : isQuarter line = true
  · rw [gradeHigh_quarter kind hq, gradeHigh_quarter kind hq]
    have hbelow := gradeFlat_mono kind h (line - 1 / 4)
    have habove := gradeFlat_mono kind h (line + 1 / 4)
    have hv := combine_rank _ (gradeFlat_mem kind v (line - 1 / 4)) _
      (gradeFlat_mem kind v (line + 1 / 4))
    have hw := combine_rank _ (gradeFlat_mem kind w (line - 1 / 4)) _
      (gradeFlat_mem kind w (line + 1 / 4))
    omega
  · rw [Bool.not_eq_true] at hq
    rw [gradeHigh_flat kind hq, gradeHigh_flat kind hq]
    exact gradeFlat_mono kind h line

theorem gradeHigh_mem (value : Int) (line : ℚ) : gradeHigh kind value line ∈ grades := by
  by_cases hq : isQuarter line = true
  · rw [gradeHigh_quarter kind hq]
    exact combine_mem _ (gradeFlat_mem ..) _ (gradeFlat_mem ..)
  · rw [Bool.not_eq_true] at hq
    rw [gradeHigh_flat kind hq]
    exact flat_mem_grades _ (gradeFlat_mem kind value line)

theorem gradeAt_mem (value : Int) (x : Parsed) : gradeAt kind value x ∈ grades := by
  cases x with
  | nan => exact show gVoid ∈ grades by decide
  | inf negative =>
    show (if (kind = "handicap") = (negative = false) then gWon else gLost) ∈ grades
    split <;> decide
  | num line => exact gradeHigh_mem kind value line

theorem gradeAt_monotone (x : Parsed) : Monotone fun v => (gradeAt kind v x).rank := by
  intro v w h
  cases x with
  | nan => exact le_refl _
  | inf negative => exact le_refl _
  | num line => exact gradeHigh_mono kind h line

/-- The numbers a line grades in one way are neighbours. -/
theorem gradeAt_convex (x : Parsed) (g : Graded) :
    Scan.Convex fun v => decide (gradeAt kind v x = g) := by
  intro a b c hab hbc ha hc
  rw [decide_eq_true_iff] at ha hc ⊢
  have hrank := Scan.convex_level (gradeAt_monotone kind x) g.rank a b c hab hbc
    (decide_eq_true (congrArg Graded.rank ha)) (decide_eq_true (congrArg Graded.rank hc))
  exact rank_injective (gradeAt_mem kind b x) (ha ▸ gradeAt_mem kind a x) (of_decide_eq_true hrank)

end Oddzilla
