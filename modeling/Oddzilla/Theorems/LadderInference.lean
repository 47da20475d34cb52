import Oddzilla.Settler.Inference

/-!
# Ladder inference is sound, and complete on a narrowed range

Siblings that carry the grades of one number leave an interval around it: the
numbers that give every sibling its result.  The open line is decided when the
interval is not the whole range and grades the line one way, and the decision is
the grade under the number itself.
-/

namespace Oddzilla.Theorems

open Text (trimSpace parseFloat Parsed)

/-! ## Settled lines -/

/-- A settled line of the family and its settled outcome rows. -/
structure SettledLine where
  line : String
  rows : List LadderOutcome
  nodup : (rows.map LadderOutcome.id).Nodup

/-- The grade a result column stands for. -/
def resultGrade : OutcomeResult → Graded
  | .won => gWon
  | .lost => gLost
  | .void => gVoid
  | .halfWon => gHalfWon
  | .halfLost => gHalfLost

namespace SettledLine

/-- What the query makes of it. -/
def sibling (s : SettledLine) : LadderSibling := ⟨s.line, resultsText s.rows⟩

def Reads (s : SettledLine) (x : Parsed) : Prop := parseFloat (trimSpace s.line.toList) = some x

def Has (s : SettledLine) (id : String) (g : Graded) : Prop :=
  ∃ row ∈ s.rows, row.id = id ∧ resultGrade row.result = g

/-- The rows of the two sides carry the grades of `v`. -/
def GradedFor (s : SettledLine) (lineKey hiId loId : String) (v : Int) : Prop :=
  ∀ x, s.Reads x → ∀ g, (s.Has hiId g → g = gradeAt lineKey v x) ∧
    (s.Has loId g → g = mirror (gradeAt lineKey v x))

/-- A readable line with both sides settled. -/
def Usable (s : SettledLine) (hiId loId : String) : Prop :=
  (∃ x, s.Reads x) ∧ (∃ g, s.Has hiId g) ∧ ∃ g, s.Has loId g

/-- The number `w` gives the high side its stored result. -/
def Allows (s : SettledLine) (lineKey hiId : String) (w : Int) : Prop :=
  ∀ x, s.Reads x → ∀ g, s.Has hiId g → gradeAt lineKey w x = g

end SettledLine

/-- The number agrees with every usable sibling. -/
def Consistent (lineKey hiId loId : String) (lines : List SettledLine) (w : Int) : Prop :=
  ∀ s ∈ lines, s.Usable hiId loId → s.Allows lineKey hiId w

/-- The numbers the search goes through. -/
def InRange (w : Int) : Prop := -valueRange ≤ w ∧ w ≤ valueRange

/-! ## Reading the aggregated text -/

theorem fromStored_text (r : OutcomeResult) : fromStored r.text.toList = some (resultGrade r) := by
  cases r <;> decide

theorem resultText_clean (r : OutcomeResult) : ',' ∉ r.text.toList ∧ ':' ∉ r.text.toList := by
  cases r <;> decide

theorem splitOnChar_cons {sep : Char} {a b : List Char} (h : sep ∉ a) :
    splitOnChar sep (a ++ sep :: b) = a :: splitOnChar sep b := by
  rw [splitOnChar_eq, splitOnChar_eq, List.splitOn_append_cons_self, List.splitOn_eq_singleton h]
  rfl

theorem resultEntry_text (row : LadderOutcome) :
    resultEntry row.text = some (row.id.toList, row.result.text.toList) := by
  unfold resultEntry LadderOutcome.text
  rw [splitOnChar_cons row.id_clean.2, splitOnChar_cons (resultText_clean row.result).2]

theorem text_clean (row : LadderOutcome) : ',' ∉ row.text := by
  unfold LadderOutcome.text
  simp only [List.mem_append, List.mem_cons, not_or]
  exact ⟨row.id_clean.1, by decide, (resultText_clean row.result).1, by decide, row.void_clean⟩

/-- The entries of the text are the rows. -/
theorem entries_resultsText (rows : List LadderOutcome) :
    (splitOnChar ',' (resultsText rows)).filterMap resultEntry =
      rows.map fun row => (row.id.toList, row.result.text.toList) := by
  cases rows with
  | nil => rfl
  | cons row rest =>
    unfold resultsText
    rw [splitOnChar_intercalate (by simp)]
    · have hentry : resultEntry ∘ LadderOutcome.text =
          some ∘ fun row => (row.id.toList, row.result.text.toList) := funext resultEntry_text
      rw [List.filterMap_map, hentry, List.filterMap_eq_map]
    · intro w hw
      obtain ⟨r, -, rfl⟩ := List.mem_map.mp hw
      exact text_clean r

namespace SettledLine

variable {s : SettledLine} {id : String}

/-- A line has one row of an outcome. -/
theorem Has.unique {g g' : Graded} (h : s.Has id g) (h' : s.Has id g') : g = g' := by
  obtain ⟨row, hrow, hid, rfl⟩ := h
  obtain ⟨row', hrow', hid', rfl⟩ := h'
  rw [List.inj_on_of_nodup_map s.nodup hrow hrow' (hid.trans hid'.symm)]

/-- The map of the sibling holds the grade of the row, or nothing that is read. -/
theorem fromStored_resultOf {g : Graded} :
    fromStored (resultOf (resultsText s.rows) id) = some g ↔ s.Has id g := by
  unfold resultOf
  rw [entries_resultsText]
  cases hlast : lastPair (s.rows.map fun row => (row.id.toList, row.result.text.toList))
      id.toList with
  | none =>
    have hempty : fromStored [] = none := by decide
    refine iff_of_false ?_ ?_
    · show fromStored [] ≠ some g
      rw [hempty]
      exact (Option.some_ne_none g).symm
    rintro ⟨row, hrow, rfl, -⟩
    obtain ⟨kv, hkv⟩ := lastPair_ne_none (List.mem_map_of_mem
      (f := fun row : LadderOutcome => (row.id.toList, row.result.text.toList)) hrow)
    rw [hlast] at hkv
    cases hkv
  | some kv =>
    obtain ⟨hmem, hkey⟩ := lastPair_mem hlast
    obtain ⟨row, hrow, rfl⟩ := List.mem_map.mp hmem
    have hid : row.id = id := String.toList_inj.mp hkey
    show fromStored row.result.text.toList = some g ↔ _
    rw [fromStored_text, Option.some_inj]
    constructor
    · intro h
      exact ⟨row, hrow, hid, h⟩
    · intro h
      exact Has.unique ⟨row, hrow, hid, rfl⟩ h

/-- What is read of a line with the grades of `v`. -/
theorem readSibling_eq {lineKey hiId loId : String} {v : Int} (h : s.GradedFor lineKey hiId loId v)
    {x : Parsed} {g : Graded} : readSibling hiId loId s.sibling = some (x, g) ↔
      s.Reads x ∧ s.Usable hiId loId ∧ s.Has hiId g := by
  unfold readSibling
  dsimp only [SettledLine.sibling]
  constructor
  · intro hread
    split at hread
    · next x' o hx ho =>
      cases hread
      unfold siblingResult at ho
      split at ho
      · next hi lo hhi hlo =>
        rw [fromStored_resultOf] at hhi hlo
        split at ho
        · cases ho
          exact ⟨hx, ⟨⟨x, hx⟩, ⟨_, hhi⟩, ⟨_, hlo⟩⟩, hhi⟩
        · cases ho
      · cases ho
    · cases hread
  · rintro ⟨hx, ⟨-, -, lo, hlo⟩, hhi⟩
    have hmirror : mirror g = lo := by rw [(h x hx g).1 hhi, (h x hx lo).2 hlo]
    have hsides : siblingResult (resultsText s.rows) hiId loId = some g := by
      unfold siblingResult
      rw [fromStored_resultOf.mpr hhi, fromStored_resultOf.mpr hlo]
      exact if_pos hmirror
    rw [hsides, show parseFloat (trimSpace s.line.toList) = some x from hx]

end SettledLine

/-! ## The interval -/

section

variable {lineKey hiId loId : String} {v : Int} {lines : List SettledLine}

/-- One turn keeps the numbers that the sibling allows. -/
theorem narrow_spec {s : SettledLine} (hv : InRange v) (h : s.GradedFor lineKey hiId loId v)
    (i : Interval) :
    let i' := narrow lineKey hiId loId i s.sibling
    (i.lo ≤ i'.lo ∧ i'.hi ≤ i.hi) ∧
    (∀ w, InRange w → (i'.lo ≤ w ∧ w ≤ i'.hi ↔ (i.lo ≤ w ∧ w ≤ i.hi) ∧
      (s.Usable hiId loId → s.Allows lineKey hiId w))) ∧
    (i'.used = [] → i' = i) := by
  cases hread : readSibling hiId loId s.sibling with
  | none =>
    have hsame : narrow lineKey hiId loId i s.sibling = i := by
      unfold narrow
      rw [hread]
    have hunused : ¬ s.Usable hiId loId := by
      rintro ⟨⟨x, hx⟩, ⟨g, hg⟩, hloRow⟩
      have hsome := (SettledLine.readSibling_eq h).mpr ⟨hx, ⟨⟨x, hx⟩, ⟨g, hg⟩, hloRow⟩, hg⟩
      rw [hread] at hsome
      cases hsome
    rw [hsame]
    exact ⟨⟨le_refl _, le_refl _⟩,
      fun w _ => ⟨fun hw => ⟨hw, fun hu => absurd hu hunused⟩, And.left⟩, fun _ => rfl⟩
  | some xg =>
    obtain ⟨x, g⟩ := xg
    obtain ⟨hx, hu, hg⟩ := (SettledLine.readSibling_eq h).mp hread
    -- the true number reproduces the grade, so the ends are not crossed
    have hfound : decide (gradeAt lineKey v x = g) = true :=
      decide_eq_true ((h x hx g).1 hg).symm
    have hends := Scan.le_ends (p := fun v => decide (gradeAt lineKey v x = g)) hv hfound
    have hwithin : ∃ used, narrow lineKey hiId loId i s.sibling = i.within
        (Scan.ends (fun v => decide (gradeAt lineKey v x = g)) valueRange) used := by
      unfold narrow
      rw [hread]
      exact ⟨_, if_neg (not_lt.mpr (hends.1.trans hends.2))⟩
    obtain ⟨used, hwithin⟩ := hwithin
    rw [hwithin]
    refine ⟨i.within_bounds _ used, fun w hw => ?_, fun hused => ?_⟩
    · rw [Interval.mem_within, ← Scan.mem_iff_ends (gradeAt_convex lineKey x g) hv hfound hw,
        decide_eq_true_iff]
      refine and_congr_right fun _ => ⟨?_, fun hallows => hallows hu x hx g hg⟩
      rintro hgrade - x' hx' g' hg'
      rw [← Option.some_inj.mp (hx.symm.trans hx'), hgrade, hg.unique hg']
    · exact absurd hused (List.append_ne_nil_of_right_ne_nil _ (List.cons_ne_nil _ _))

/-- The loop leaves the numbers that agree with every usable sibling. -/
theorem foldl_narrow (hv : InRange v) (h : ∀ s ∈ lines, s.GradedFor lineKey hiId loId v)
    (i : Interval) :
    let i' := (lines.map SettledLine.sibling).foldl (narrow lineKey hiId loId) i
    (i.lo ≤ i'.lo ∧ i'.hi ≤ i.hi) ∧
    (∀ w, InRange w → (i'.lo ≤ w ∧ w ≤ i'.hi ↔ (i.lo ≤ w ∧ w ≤ i.hi) ∧
      Consistent lineKey hiId loId lines w)) ∧
    (i'.used = [] → i' = i) := by
  induction lines generalizing i with
  | nil =>
    refine ⟨⟨le_refl _, le_refl _⟩, fun w _ => ⟨fun hw => ⟨hw, ?_⟩, And.left⟩, fun _ => rfl⟩
    intro s hs
    cases hs
  | cons s rest ih =>
    obtain ⟨hbound, hone, hused⟩ := narrow_spec hv (h s (List.mem_cons_self ..)) i
    obtain ⟨hbounds, hall, husedRest⟩ := ih (fun s' hs' => h s' (List.mem_cons_of_mem _ hs'))
      (narrow lineKey hiId loId i s.sibling)
    refine ⟨⟨hbound.1.trans hbounds.1, hbounds.2.trans hbound.2⟩, fun w hw => ?_, fun he => ?_⟩
    · rw [List.map_cons, List.foldl_cons, hall w hw, hone w hw, and_assoc]
      unfold Consistent
      rw [List.forall_mem_cons]
    · have hrest := husedRest he
      rw [List.map_cons, List.foldl_cons, hrest]
      refine hused ?_
      rw [← hrest]
      exact he

/-- The interval as the refusals and the decision see it. -/
theorem interval_spec (hv : InRange v) (h : ∀ s ∈ lines, s.GradedFor lineKey hiId loId v) :
    let i := (lines.map SettledLine.sibling).foldl (narrow lineKey hiId loId) {}
    (-valueRange ≤ i.lo ∧ i.lo ≤ v ∧ v ≤ i.hi ∧ i.hi ≤ valueRange) ∧
    (∀ w, InRange w → (i.lo ≤ w ∧ w ≤ i.hi ↔ Consistent lineKey hiId loId lines w)) ∧
    ((i.used = [] ∨ i.lo = -valueRange ∧ i.hi = valueRange) ↔
      ∀ w, InRange w → Consistent lineKey hiId loId lines w) := by
  obtain ⟨⟨hlo, hhi⟩, hmem, hused⟩ := foldl_narrow hv h {}
  have hmem' : ∀ w, InRange w → (_ ↔ Consistent lineKey hiId loId lines w) := fun w hw =>
    (hmem w hw).trans (and_iff_right hw)
  have htrue : Consistent lineKey hiId loId lines v := fun s hs _ x hx g hg =>
    ((h s hs x hx g).1 hg).symm
  have hvin := (hmem' v hv).mpr htrue
  refine ⟨⟨hlo, hvin.1, hvin.2, hhi⟩, hmem', ?_⟩
  constructor
  · rintro (he | ⟨he, he'⟩) w hw
    · rw [hused he] at hmem'
      exact (hmem' w hw).mp hw
    · refine (hmem' w hw).mp ?_
      rw [he, he']
      exact hw
  · intro hall
    right
    have hleft := (hmem' (-valueRange) ⟨le_refl _, by decide⟩).mpr (hall _ ⟨le_refl _, by decide⟩)
    have hright := (hmem' valueRange ⟨by decide, le_refl _⟩).mpr (hall _ ⟨by decide, le_refl _⟩)
    exact ⟨le_antisymm hleft.1 hlo, le_antisymm hhi hright.2⟩

/-! ## The decision -/

/-- The numbers that agree with the siblings grade the open line in one way. -/
def GradesOneWay (lineKey hiId loId : String) (lines : List SettledLine) (y : Parsed) : Prop :=
  ∀ w w', InRange w → InRange w' → Consistent lineKey hiId loId lines w →
    Consistent lineKey hiId loId lines w' → gradeAt lineKey w y = gradeAt lineKey w' y

theorem inferLine_eq {openLine outcomeIds : String} {y : Parsed}
    (hsides : ladderSides lineKey outcomeIds = .ok (hiId, loId))
    (hy : parseFloat (trimSpace openLine.toList) = some y) (siblings : List LadderSibling) :
    inferLine lineKey openLine outcomeIds siblings =
      decideLine lineKey hiId loId y (siblings.foldl (narrow lineKey hiId loId) {}) := by
  unfold inferLine
  rw [hy, hsides]
  rfl

/-- On an interval that is not crossed only the width and the two ends decide. -/
theorem decideLine_ok {y : Parsed} {i : Interval} (hi : i.lo ≤ i.hi)
    (outs : List FeedOutcome) :
    (∃ why, decideLine lineKey hiId loId y i = .ok (outs, why)) ↔
      ¬ (i.used = [] ∨ i.lo = -valueRange ∧ i.hi = valueRange) ∧
      gradeAt lineKey i.lo y = gradeAt lineKey i.hi y ∧
      outs = settledOutcomes hiId loId (gradeAt lineKey i.lo y) := by
  have hrank := rank_nonneg _ (gradeAt_mem lineKey i.lo y)
  unfold decideLine
  by_cases hused : i.used = []
  · simp [hused]
  by_cases hfull : i.lo = -valueRange ∧ i.hi = valueRange
  · simp [hused, hfull, not_lt.mpr (hfull.1 ▸ hfull.2 ▸ hi)]
  rw [if_neg hused, if_neg (not_lt.mpr hi), if_neg hfull]
  simp only
  by_cases hends : gradeAt lineKey i.lo y = gradeAt lineKey i.hi y
  · rw [if_neg (by simp [hends ▸ hrank, hends])]
    constructor
    · rintro ⟨why, h⟩
      cases h
      exact ⟨by simp [hused, hfull], hends, rfl⟩
    · rintro ⟨-, -, rfl⟩
      exact ⟨_, rfl⟩
  · rw [if_pos (.inr hends)]
    exact iff_of_false (by simp) fun h => hends h.2.1

theorem settledOutcomes_perm (hiId loId : String) (g : Graded) :
    (settledOutcomes hiId loId g).Perm
      [⟨hiId, g.res, g.vf⟩, ⟨loId, (mirror g).res, (mirror g).vf⟩] := by
  unfold settledOutcomes
  simp only
  split
  · exact List.Perm.swap ..
  · exact List.Perm.refl _

theorem consistent_contiguous {a b c : Int} (hab : a ≤ b) (hbc : b ≤ c)
    (ha : Consistent lineKey hiId loId lines a) (hc : Consistent lineKey hiId loId lines c) :
    Consistent lineKey hiId loId lines b := by
  intro s hs hu x hx g hg
  exact of_decide_eq_true (gradeAt_convex lineKey x g a b c hab hbc
    (decide_eq_true (ha s hs hu x hx g hg)) (decide_eq_true (hc s hs hu x hx g hg)))

/-- Siblings graded for `v` leave a contiguous set of numbers; the open line is
decided exactly when they rule out a number of the range and the numbers left
grade it in one way, and then with the grade under `v`. -/
theorem inferLine_exact {openLine outcomeIds : String} {y : Parsed}
    (hsides : ladderSides lineKey outcomeIds = .ok (hiId, loId))
    (hy : parseFloat (trimSpace openLine.toList) = some y) (hv : InRange v)
    (h : ∀ s ∈ lines, s.GradedFor lineKey hiId loId v) :
    (∀ a b c, a ≤ b → b ≤ c → Consistent lineKey hiId loId lines a →
      Consistent lineKey hiId loId lines c → Consistent lineKey hiId loId lines b) ∧
    ((∃ d, inferLine lineKey openLine outcomeIds (lines.map SettledLine.sibling) = .ok d) ↔
      (∃ w, InRange w ∧ ¬ Consistent lineKey hiId loId lines w) ∧
        GradesOneWay lineKey hiId loId lines y) ∧
    ∀ outs why, inferLine lineKey openLine outcomeIds (lines.map SettledLine.sibling) =
      .ok (outs, why) →
        outs.Perm [⟨hiId, (gradeAt lineKey v y).res, (gradeAt lineKey v y).vf⟩,
          ⟨loId, (mirror (gradeAt lineKey v y)).res, (mirror (gradeAt lineKey v y)).vf⟩] := by
  rw [inferLine_eq hsides hy]
  obtain ⟨⟨hlo, hlov, hvhi, hhi⟩, hmem, hwide⟩ := interval_spec hv h
  generalize (lines.map SettledLine.sibling).foldl (narrow lineKey hiId loId) {} = i at *
  have hle : i.lo ≤ i.hi := hlov.trans hvhi
  -- the grades in between are squeezed by the two ends
  have hsqueeze : gradeAt lineKey i.lo y = gradeAt lineKey i.hi y →
      ∀ w, i.lo ≤ w ∧ w ≤ i.hi → gradeAt lineKey w y = gradeAt lineKey i.lo y := by
    intro hends w hw
    exact of_decide_eq_true (gradeAt_convex lineKey y (gradeAt lineKey i.lo y) i.lo w i.hi hw.1 hw.2
      (decide_eq_true rfl) (decide_eq_true hends.symm))
  refine ⟨fun a b c hab hbc => consistent_contiguous hab hbc, ⟨?_, ?_⟩, ?_⟩
  · rintro ⟨⟨outs, why⟩, hok⟩
    obtain ⟨hnarrow, hends, -⟩ := (decideLine_ok hle outs).mp ⟨why, hok⟩
    rw [hwide] at hnarrow
    push Not at hnarrow
    refine ⟨hnarrow, fun w w' hw hw' hcw hcw' => ?_⟩
    rw [hsqueeze hends w ((hmem w hw).mpr hcw), hsqueeze hends w' ((hmem w' hw').mpr hcw')]
  · rintro ⟨⟨w, hw, hout⟩, honeWay⟩
    have hloIn : InRange i.lo := ⟨hlo, hle.trans hhi⟩
    have hhiIn : InRange i.hi := ⟨hlo.trans hle, hhi⟩
    have hends := honeWay i.lo i.hi hloIn hhiIn ((hmem _ hloIn).mp ⟨le_refl _, hle⟩)
      ((hmem _ hhiIn).mp ⟨hle, le_refl _⟩)
    have hdecided : ∃ why, decideLine lineKey hiId loId y i =
        .ok (settledOutcomes hiId loId (gradeAt lineKey i.lo y), why) :=
      (decideLine_ok hle _).mpr ⟨fun hfull => hout (hwide.mp hfull w hw), hends, rfl⟩
    obtain ⟨why, hok⟩ := hdecided
    exact ⟨_, hok⟩
  · intro outs why hok
    obtain ⟨-, hends, rfl⟩ := (decideLine_ok hle outs).mp ⟨why, hok⟩
    rw [hsqueeze hends v ⟨hlov, hvhi⟩]
    exact settledOutcomes_perm hiId loId _

end

/-! ## Two totals -/

/-- A settled total: under is outcome 4, over is outcome 5. -/
def totalLine (line : String) (high low : OutcomeResult) : SettledLine where
  line := line
  rows := [⟨"4", low, "", by decide, by decide⟩, ⟨"5", high, "", by decide, by decide⟩]
  nodup := show (["4", "5"] : List String).Nodup by decide

theorem totalLine_graded {line : String} {high low : OutcomeResult} {n v : Int}
    (hline : parseFloat (trimSpace line.toList) = some (.num (n / 4)))
    (hhigh : resultGrade high = marginGrade (highMargin "threshold" v n))
    (hlow : resultGrade low = mirror (marginGrade (highMargin "threshold" v n))) :
    (totalLine line high low).GradedFor "threshold" "5" "4" v := by
  intro x hx g
  cases Option.some_inj.mp (hline.symm.trans hx)
  have hgrade : gradeAt "threshold" v (.num (n / 4)) = marginGrade (highMargin "threshold" v n) :=
    gradeHigh_grid "threshold" v n
  rw [hgrade, ← hhigh, ← hlow.trans (congrArg mirror hhigh.symm)]
  constructor
  · rintro ⟨row, hrow, hid, rfl⟩
    simp only [totalLine, List.mem_cons, List.not_mem_nil, or_false] at hrow
    rcases hrow with rfl | rfl
    · exact absurd (show "4" = "5" from hid) (by decide)
    · rfl
  · rintro ⟨row, hrow, hid, rfl⟩
    simp only [totalLine, List.mem_cons, List.not_mem_nil, or_false] at hrow
    rcases hrow with rfl | rfl
    · rfl
    · exact absurd (show "5" = "4" from hid) (by decide)

/-- Over 25.5 has won, so over 24.5 is decided. -/
theorem inferLine_exact_25 :
    (∃ d, inferLine "threshold" "24.5" "4,5" [(totalLine "25.5" .won .lost).sibling] = .ok d) ↔
      (∃ w, InRange w ∧ ¬ Consistent "threshold" "5" "4" [totalLine "25.5" .won .lost] w) ∧
        GradesOneWay "threshold" "5" "4" [totalLine "25.5" .won .lost] (.num (49 / 2)) := by
  have hall : ∀ s ∈ [totalLine "25.5" .won .lost], s.GradedFor "threshold" "5" "4" 26 := by
    intro s hs
    rw [List.mem_singleton.mp hs]
    exact totalLine_graded (n := 102) (by decide +kernel) (by decide) (by decide)
  exact (inferLine_exact (by decide) (by decide +kernel) (by unfold InRange; decide) hall).2.1

/-- A sibling beyond the range says nothing about it: every number of the range
grades the open line lost, and the line is refused. -/
theorem far_line_refused :
    (totalLine "600.5" .lost .won).GradedFor "threshold" "5" "4" 0 ∧
    GradesOneWay "threshold" "5" "4" [totalLine "600.5" .lost .won] (.num (1401 / 2)) ∧
    ¬ ∃ d, inferLine "threshold" "700.5" "4,5"
      [(totalLine "600.5" .lost .won).sibling] = .ok d := by
  have hline : parseFloat (trimSpace "600.5".toList) = some (.num ((2402 : Int) / 4)) := by
    decide +kernel
  have hfar : ∀ n : Int, 2002 ≤ n → ∀ w, InRange w →
      gradeAt "threshold" w (.num ((n : ℚ) / 4)) = gLost := by
    intro n hn w hw
    refine (gradeHigh_grid "threshold" w n).trans ?_
    have hw' : w ≤ 500 := hw.2
    have hmargin : highMargin "threshold" w n = 4 * w - n := by
      unfold highMargin
      exact if_neg (by decide)
    rw [hmargin]
    unfold marginGrade
    rw [if_neg (by omega), if_neg (by omega), if_neg (by omega), if_neg (by omega)]
  have hgraded : (totalLine "600.5" .lost .won).GradedFor "threshold" "5" "4" 0 :=
    totalLine_graded hline (by decide) (by decide)
  have hopen : (1401 / 2 : ℚ) = ((2802 : Int) : ℚ) / 4 := by norm_num
  refine ⟨hgraded, fun w w' hw hw' _ _ => ?_, ?_⟩
  · rw [hopen, hfar 2802 (by decide) w hw, hfar 2802 (by decide) w' hw']
  · have hall : ∀ s ∈ [totalLine "600.5" .lost .won], s.GradedFor "threshold" "5" "4" 0 := by
      intro s hs
      rw [List.mem_singleton.mp hs]
      exact hgraded
    obtain ⟨⟨-, hlov, hvhi, -⟩, -, hwide⟩ := interval_spec (by unfold InRange; decide) hall
    rintro ⟨⟨outs, why⟩, hok⟩
    have hinfer : inferLine "threshold" "700.5" "4,5" [(totalLine "600.5" .lost .won).sibling] =
        decideLine "threshold" "5" "4" (.num (1401 / 2))
          (List.foldl (narrow "threshold" "5" "4") {} [(totalLine "600.5" .lost .won).sibling]) :=
      inferLine_eq (by decide) (by decide +kernel) _
    rw [hinfer] at hok
    refine ((decideLine_ok (hlov.trans hvhi) outs).mp ⟨why, hok⟩).1
      (hwide.mpr fun w hw s hs _ => ?_)
    rw [List.mem_singleton.mp hs]
    intro x hx g hg
    cases Option.some_inj.mp (hline.symm.trans hx)
    rw [hfar 2402 (by decide) w hw, (hgraded _ hx g).1 hg]
    exact (hfar 2402 (by decide) 0 (by unfold InRange; decide)).symm

end Oddzilla.Theorems
