import Oddzilla.Fonbet.Grade

/-!
# What a graded market has been through

`Settles` says of every shape which score a market was settled on and what its outcomes
got.  Sides are read as sets of endings: home, draw and away.
-/

namespace Oddzilla.Fonbet.Settle

open Text (Parsed)

/-! ## Endings -/

inductive Ending
  | home | draw | away
  deriving DecidableEq

def endingOf (h a : Int) : Ending := if a < h then .home else if h < a then .away else .draw

/-- The side wins with the ending. -/
def Side.covers : Side → Ending → Bool
  | .one, e => e = .home
  | .two, e => e = .away
  | .x, e => e = .draw
  | .oneX, e => e ≠ .away
  | .oneTwo, e => e ≠ .draw
  | .xTwo, e => e ≠ .home

/-- One ending only. -/
def Side.single : Side → Bool
  | .one => true
  | .two => true
  | .x => true
  | _ => false

theorem endingOf_home {h a : Int} : endingOf h a = .home ↔ a < h := by
  unfold endingOf
  split
  · simp [*]
  · split
    · simp [*]
    · simp [*]

theorem endingOf_away {h a : Int} : endingOf h a = .away ↔ h < a := by
  unfold endingOf
  split
  · simp only [reduceCtorEq, false_iff]
    omega
  · split
    · simp [*]
    · simp [*]

theorem endingOf_draw {h a : Int} : endingOf h a = .draw ↔ h = a := by
  unfold endingOf
  split
  · simp only [reduceCtorEq, false_iff]
    omega
  · split
    · simp only [reduceCtorEq, false_iff]
      omega
    · simp only [true_iff]
      omega

theorem Side.won_eq (side : Side) (h a : Int) : side.won h a = side.covers (endingOf h a) := by
  cases side with
  | one => exact decide_eq_decide.mpr endingOf_home.symm
  | two => exact decide_eq_decide.mpr endingOf_away.symm
  | x => exact decide_eq_decide.mpr endingOf_draw.symm
  | oneX => exact decide_eq_decide.mpr (by rw [Ne, endingOf_away, not_lt])
  | oneTwo => exact decide_eq_decide.mpr (by rw [Ne, Ne, endingOf_draw])
  | xTwo => exact decide_eq_decide.mpr (by rw [Ne, endingOf_home, not_lt])

/-- A fight that is decided is read as its ending. -/
theorem Side.fightWon_eq (side : Side) {h a : Int} (hne : h ≠ a) :
    side.fightWon (decide (a < h)) = side.covers (endingOf h a) := by
  rcases lt_or_gt_of_ne hne with hlt | hgt
  · rw [decide_eq_false (by omega), endingOf_away.mpr hlt]
    cases side <;> rfl
  · rw [decide_eq_true hgt, endingOf_home.mpr hgt]
    cases side <;> rfl

/-! ## The loop over the outcomes -/

@[simp] theorem boolResult_eq_one {b : Bool} : boolResult b = "1" ↔ b = true := by
  cases b <;> decide

/-- Every outcome of the market has one result, with nothing void. -/
structure Each (won : List Char → Except String Bool) (mk : Market) (outs : List Outcome) :
    Prop where
  ids : (outs.map Outcome.id).Perm mk.outcomeIds
  result : ∀ o ∈ outs, ∃ b, won o.id = .ok b ∧ o = ⟨o.id, boolResult b, ""⟩

theorem sortOutcomes_perm (outs : List Outcome) : (sortOutcomes outs).Perm outs :=
  List.perm_insertionSort _ _

theorem gradeEach_ok {won : List Char → Except String Bool} {ids : List (List Char)}
    {outs : List Outcome}
    (h : gradeEach won ids = .ok outs) : outs.map Outcome.id = ids ∧
      ∀ o ∈ outs, ∃ b, won o.id = .ok b ∧ o = ⟨o.id, boolResult b, ""⟩ := by
  induction ids generalizing outs with
  | nil =>
    cases h
    exact ⟨rfl, by simp⟩
  | cons id ids ih =>
    unfold gradeEach at h
    cases hid : won id with
    | error e => simp [hid] at h
    | ok b =>
      rw [hid] at h
      cases hrest : gradeEach won ids with
      | error e => simp [hrest, Except.map] at h
      | ok outs' =>
        rw [hrest] at h
        cases h
        obtain ⟨hids, hresult⟩ := ih hrest
        refine ⟨by rw [List.map_cons, hids], fun o ho => ?_⟩
        rcases List.mem_cons.mp ho with rfl | ho
        · exact ⟨b, hid, rfl⟩
        · exact hresult o ho

theorem each_of_ok {won : List Char → Except String Bool} {mk : Market} {outs : List Outcome}
    (h : (gradeEach won mk.outcomeIds).map sortOutcomes = .ok outs) : Each won mk outs := by
  cases hloop : gradeEach won mk.outcomeIds with
  | error e => simp [hloop, Except.map] at h
  | ok outs' =>
    rw [hloop] at h
    cases h
    obtain ⟨hids, hresult⟩ := gradeEach_ok hloop
    constructor
    · rw [← hids]
      exact (sortOutcomes_perm outs').map _
    · intro o ho
      exact hresult o ((sortOutcomes_perm outs').mem_iff.mp ho)

/-! ## The shapes -/

/-- The round a fight ended in. -/
def fightRound (ss : ScoreSet) : Int :=
  if ss.main.home < ss.main.away then ss.main.away else ss.main.home

/-- The number of a total: of one team or of both. -/
def lineTotal (mk : Market) (h a : Int) : Int :=
  if spec mk "side" = "home".toList then h
  else if spec mk "side" = "away".toList then a
  else h + a

section

variable (u : Unicode) (mk : Market) (idx : Index) (table : TableMeta) (t : LabelTarget) (sport : Int)
  (ss : ScoreSet)

/-- The score a market was settled on and its outcomes, by the shape it was taken for. -/
inductive Settles : Int × Int → List Outcome → Prop
  | fightWinner {outs : List Outcome} (fight : (ruleFor sport).fight = true)
      (whole : t.whole = true)
      (kind : mk.doubleChance = true ∨ isWinner mk idx table = true)
      (decided : ss.main.home ≠ ss.main.away)
      (each : Each (fightWinnerWon idx (decide (ss.main.away < ss.main.home))) mk outs) :
      Settles (ss.main.home, ss.main.away) outs
  | fightTotal {outs : List Outcome} {line : Parsed} (fight : (ruleFor sport).fight = true)
      (whole : t.whole = true) (length : mk.outcomeIds.length = 2) (overWon : Bool)
      (rounds : overWon = true ∧ decidingRound line < fightRound ss ∨
        overWon = false ∧ fightRound ss < decidingRound line)
      (each : Each (fightTotalWon overWon) mk outs) : Settles (ss.main.home, ss.main.away) outs
  | bothTeams {yes no : List Char} {h a : Int} {ot : Bool}
      (plain : ((ruleFor sport).fight && t.whole) = false)
      (shape : bothTeamsToScore u mk idx = some (yes, no))
      (score : scoreFor u ss t sport table false = some (h, a, ot)) :
      Settles (h, a) (sortOutcomes [⟨yes, boolResult (decide (0 < h) && decide (0 < a)), ""⟩,
        ⟨no, boolResult !(decide (0 < h) && decide (0 < a)), ""⟩])
  | doubleChance {outs : List Outcome} {h a : Int} {ot : Bool}
      (plain : ((ruleFor sport).fight && t.whole) = false)
      (notBoth : bothTeamsToScore u mk idx = none)
      (kind : mk.doubleChance = true)
      (score : scoreFor u ss t sport table false = some (h, a, ot))
      (each : Each (dcWon idx h a) mk outs) :
      Settles (h, a) outs
  | winner {outs : List Outcome} {s : Int × Int}
      (plain : ((ruleFor sport).fight && t.whole) = false)
      (notBoth : bothTeamsToScore u mk idx = none) (notDouble : mk.doubleChance = false)
      (kind : isWinner mk idx table = true)
      (score : winnerScore u mk idx ss t sport table = .ok s)
      (each : Each (winnerWon idx s.1 s.2) mk outs) : Settles s outs
  | line {h a : Int} {ot : Bool} {side side' : String} {g g' : Graded} {line : Parsed}
      (plain : ((ruleFor sport).fight && t.whole) = false)
      (notBoth : bothTeamsToScore u mk idx = none)
      (sides : hasSides mk side side' = true)
      (known : side = "h1" ∧ side' = "h2" ∧ (g, g') = handicapGrades h a line ∨
        side = "over" ∧ side' = "under" ∧ (g, g') = totalGrades (lineTotal mk h a) line)
      (score : scoreFor u ss t sport table true = some (h, a, ot)) :
      Settles (h, a) [lineOutcome side g, lineOutcome side' g']

variable {u mk idx table t sport ss}

theorem gradeFight_ok {outs : List Outcome} (hfight : (ruleFor sport).fight = true)
    (hwhole : t.whole = true)
    (h : gradeFight mk idx table (isWinner mk idx table) ss = .ok outs) :
    Settles u mk idx table t sport ss (ss.main.home, ss.main.away) outs := by
  unfold gradeFight at h
  simp only at h
  split at h
  · next hkind =>
    rw [Bool.or_eq_true] at hkind
    split at h
    · cases h
    · next hne => exact .fightWinner hfight hwhole hkind hne (each_of_ok h)
  · split at h
    · next htotal =>
      split at h
      · cases h
      · split at h
        · cases h
        · rw [show (if ss.main.home < ss.main.away then ss.main.away else ss.main.home) = fightRound ss from rfl] at h
          split at h
          · next hover =>
              exact .fightTotal hfight hwhole htotal.2.1 true (.inl ⟨rfl, hover⟩) (each_of_ok h)
          · split at h
            · next hunder =>
                exact .fightTotal hfight hwhole htotal.2.1 false (.inr ⟨rfl, hunder⟩) (each_of_ok h)
            · cases h
    · split at h <;> cases h

/-- A market that is graded is settled on some score. -/
theorem gradeShape_ok {outs : List Outcome} (h : gradeShape u mk idx table t sport ss = .ok outs) :
    ∃ s, Settles u mk idx table t sport ss s outs := by
  unfold gradeShape at h
  split at h
  · next hfight =>
    rw [Bool.and_eq_true] at hfight
    exact ⟨_, gradeFight_ok hfight.1 hfight.2 h⟩
  · next hplain =>
    rw [Bool.not_eq_true] at hplain
    split at h
    · next yes no hshape =>
      unfold gradeBothTeams at h
      split at h
      · cases h
      · next hscore =>
        cases h
        exact ⟨_, .bothTeams hplain hshape hscore⟩
    · next hnotBoth =>
      split at h
      · next hkind =>
        unfold gradeDoubleChance at h
        split at h
        · cases h
        · next hscore => exact ⟨_, .doubleChance hplain hnotBoth hkind hscore (each_of_ok h)⟩
      · next hdouble =>
        rw [Bool.not_eq_true] at hdouble
        split at h
        · next hkind =>
          unfold gradeWinner at h
          split at h
          · cases h
          · next hscore => exact ⟨_, .winner hplain hnotBoth hdouble hkind hscore (each_of_ok h)⟩
        · split at h
          · next hsides =>
            unfold gradeHandicapMarket at h
            split at h
            · cases h
            · split at h
              · cases h
              · next hscore =>
                cases h
                exact ⟨_, .line hplain hnotBoth hsides.2 (.inl ⟨rfl, rfl, rfl⟩) hscore⟩
          · split at h
            · next hsides =>
              unfold gradeTotalMarket at h
              split at h
              · cases h
              · split at h
                · cases h
                · next hscore =>
                  cases h
                  exact ⟨_, .line hplain hnotBoth hsides.2 (.inr ⟨rfl, rfl, rfl⟩) hscore⟩
            · cases h

end

/-- `Grade` with a result has found its table and its target. -/
theorem grade_ok {u : Unicode} {mk : Market} {idx : Index} {label : List Char} {sport : Int}
    {ss : ScoreSet} {outs : List Outcome} (h : Grade u mk idx label sport ss = .ok outs) :
    ∃ table t s, idx.tables mk.tableNum = some table ∧ targetOf u label sport = some t ∧
      Settles u mk idx table t sport ss s outs := by
  unfold Grade at h
  split at h
  · cases h
  · split at h
    · cases h
    · split at h
      · cases h
      · next table htable =>
        split at h
        · cases h
        · split at h
          · cases h
          · split at h
            · cases h
            · next t ht =>
              obtain ⟨s, hs⟩ := gradeShape_ok h
              exact ⟨table, t, s, htable, ht, hs⟩

/-! ## Outcomes and scores -/

theorem fightWinnerWon_eq (idx : Index) {h a : Int} (hne : h ≠ a) (id : List Char) :
    fightWinnerWon idx (decide (a < h)) id = winnerWon idx h a id := by
  unfold fightWinnerWon winnerWon
  cases winnerSide id idx with
  | none => rfl
  | some side => exact congrArg Except.ok ((side.fightWon_eq hne).trans (side.won_eq h a).symm)

theorem Each.mem {won : List Char → Except String Bool} {mk : Market} {outs : List Outcome}
    (h : Each won mk outs) {id : List Char} :
    id ∈ mk.outcomeIds ↔ ∃ o ∈ outs, o.id = id := by
  rw [← h.ids.mem_iff, List.mem_map]

/-- The outcomes of a line are no sides. -/
theorem winnerSide_line (idx : Index) {side : String} (h : side ∈ ["h1", "h2", "over", "under"]) :
    winnerSide side.toList idx = none := by
  have hatoi :
    ∀ side ∈ ["h1", "h2", "over", "under"], atoi side.toList = none ∧ side.toList ≠ "1".toList ∧
      side.toList ≠ "2".toList ∧ side.toList ≠ "3".toList := by decide
  obtain ⟨hnone, h1, h2, h3⟩ := hatoi side h
  unfold winnerSide Index.labelOf
  rw [if_neg h1, if_neg h2, if_neg h3, hnone]
  rfl

/-- A broken tie is no tie. -/
theorem breakTie_ne {ss : ScoreSet} {t : LabelTarget} {s : Int × Int} {x y : Int} {ot : Bool}
    (h : breakTie x y ss t ot = some s) : s.1 ≠ s.2 := by
  unfold breakTie at h
  split at h
  · cases h
  · simp only [Option.ite_none_left_eq_some, Option.some_inj] at h
    obtain ⟨hne, rfl⟩ := h
    exact hne

/-! ## Rules -/

theorem ruleFor_of_ruleOf {sport : Int} {rule : SportRule} (h : ruleOf sport = some rule) :
    ruleFor sport = rule := by
  unfold ruleFor
  rw [h]
  rfl

/-- A sport counts sets, or overtime, or rounds of a fight. -/
theorem rule_kinds {sport : Int} {rule : SportRule} (h : ruleOf sport = some rule)
    (hset : rule.setBased = true) : rule.otIncluded = false ∧ rule.fight = false := by
  obtain ⟨p, hp, rfl⟩ := Option.map_eq_some_iff.mp h
  have hall : ∀ p ∈ sportRules, p.2.setBased = true →
      p.2.otIncluded = false ∧ p.2.fight = false := by decide
  exact hall p (List.mem_of_find?_eq_some hp) hset

end Oddzilla.Fonbet.Settle
