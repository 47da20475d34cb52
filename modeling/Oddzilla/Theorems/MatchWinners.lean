import Oddzilla.Logic.Grades

/-!
# The winner markets of a match

A match may have two markets on its winner without a draw: the flagged match-winner
table and a plain two-way table.  Outside the set-based sports both are graded on one
score.  There the flagged table is graded on sets, but the plain one on the sum of the
games, like a handicap, so the two declare one side only if it is ahead in both.
-/

namespace Oddzilla.Fonbet.Settle

variable {u : Unicode} {mk mk' : Market} {idx : Index} {table table' : TableMeta} {t : LabelTarget}
  {sport : Int} {rule : SportRule} {ss : ScoreSet} {s : Int × Int} {outs : List Outcome}

/-- A winner market for home and away, without a draw. -/
structure TwoWay (u : Unicode) (mk : Market) (idx : Index) (table : TableMeta) : Prop where
  winner : isWinner mk idx table = true
  notDouble : mk.doubleChance = false
  notBoth : bothTeamsToScore u mk idx = none
  noDraw : hasDraw mk idx = false
  sides : ∀ id ∈ mk.outcomeIds, winnerSide id idx = some .one ∨ winnerSide id idx = some .two
  one : ∃ id ∈ mk.outcomeIds, winnerSide id idx = some .one
  two : ∃ id ∈ mk.outcomeIds, winnerSide id idx = some .two

/-- The outcomes of the side win and no others. -/
def Declares (idx : Index) (outs : List Outcome) (side : Side) : Prop :=
  ∀ o ∈ outs, o.result = "1" ↔ winnerSide o.id idx = some side

/-- The label points at the match itself. -/
def WholeMatch (u : Unicode) (label : List Char) (sport : Int) : Prop :=
  ∃ t, targetOf u label sport = some t ∧ t.whole = true

/-- More sets, where the headline counts sets. -/
def WonSets (ss : ScoreSet) (side : Side) : Prop :=
  side = .one ∧ ss.main.away < ss.main.home ∨ side = .two ∧ ss.main.home < ss.main.away

/-- The games of all sets. -/
def games (ss : ScoreSet) : Int × Int :=
  ((ss.main.periods.map Prod.fst).sum, (ss.main.periods.map Prod.snd).sum)

/-- A score, or when it is level the one after overtime and the shootout. -/
def decided (ss : ScoreSet) (s : Int × Int) : Option (Int × Int) :=
  if s.1 = s.2 then breakTie s.1 s.2 ss {} false else some s

/-- One side has more sets, and it is ahead in games too where the table is on games. -/
def SetsDecide (u : Unicode) (rule : SportRule) (table : TableMeta) (ss : ScoreSet) : Prop :=
  ss.main.home ≠ ss.main.away ∧ (onGames u rule table = true →
    ∃ s, decided ss (games ss) = some s ∧ (s.2 < s.1 ↔ ss.main.away < ss.main.home))

/-! ## The score of a two-way market -/

/-- Overtime in the score where the sport counts it. -/
def headline (rule : SportRule) (ss : ScoreSet) : Int × Int × Bool :=
  match ss.ot with
  | some ot =>
    if rule.otIncluded then (ss.main.home + ot.home, ss.main.away + ot.away, true)
    else (ss.main.home, ss.main.away, false)
  | none => (ss.main.home, ss.main.away, false)

/-- The score all two-way winner markets on the headline are settled on. -/
def headlineScore (rule : SportRule) (ss : ScoreSet) : Option (Int × Int) :=
  let (h, a, otApplied) := headline rule ss
  if h = a then breakTie h a ss {} otApplied else some (h, a)

theorem headlineScore_sets (h : rule.otIncluded = false) (ss : ScoreSet) :
    headlineScore rule ss = decided ss (ss.main.home, ss.main.away) := by
  unfold headlineScore decided headline
  cases ss.ot with
  | none => rfl
  | some ot => simp only [h, Bool.false_eq_true, if_false]

theorem breakTie_whole (h : t.whole = true) (x y : Int) (ss : ScoreSet) (ot : Bool) :
    breakTie x y ss t ot = breakTie x y ss {} ot := by
  unfold breakTie
  rw [h]
  rfl

theorem decided_ne {s' : Int × Int} (h : decided ss s' = some s) : s.1 ≠ s.2 := by
  unfold decided at h
  split at h
  · exact breakTie_ne h
  · next hne =>
    cases h
    exact hne

theorem scoreFor_whole (hrule : ruleOf sport = some rule) (h : t.whole = true) (table : TableMeta) :
    scoreFor u ss t sport table true =
      if onGames u rule table then
        if ss.main.periods = [] then none else some ((games ss).1, (games ss).2, false)
      else some (headline rule ss) := by
  have hparts : t.stat = [] ∧ t.period = 0 ∧ t.half = 0 := by
    simpa [LabelTarget.whole, and_assoc] using h
  unfold scoreFor
  rw [hrule, hparts.1, hparts.2.1, hparts.2.2]
  simp only [ne_eq, not_true_eq_false, if_false, lt_irrefl]
  split
  · rfl
  · unfold headline
    cases ss.ot with
    | none => rfl
    | some ot =>
      rw [Bool.and_true]
      exact (apply_ite some _ _ _).symm

/-- Games or headline, with the tie broken. -/
theorem winnerScore_whole (hrule : ruleOf sport = some rule) (hwhole : t.whole = true)
    (hdraw : hasDraw mk idx = false) (h : winnerScore u mk idx ss t sport table = .ok s) :
    (if onGames u rule table then decided ss (games ss) else headlineScore rule ss) = some s := by
  unfold winnerScore at h
  rw [hdraw, Bool.not_false, scoreFor_whole hrule hwhole] at h
  by_cases hgames : onGames u rule table = true
  · rw [if_pos hgames] at h ⊢
    by_cases hnil : ss.main.periods = []
    · rw [if_pos hnil] at h
      cases h
    · rw [if_neg hnil] at h
      simp only [and_true, breakTie_whole hwhole] at h
      unfold decided
      split at h
      · next hlevel =>
        rw [if_pos hlevel]
        split at h
        · cases h
        · next s' htie =>
          cases h
          exact htie
      · next hne =>
        rw [if_neg hne]
        cases h
        rfl
  · rw [if_neg hgames] at h ⊢
    rcases hheadline : headline rule ss with ⟨x, y, ot⟩
    rw [hheadline] at h
    simp only [and_true, breakTie_whole hwhole] at h
    unfold headlineScore
    rw [hheadline]
    simp only
    split at h
    · next hlevel =>
      rw [if_pos hlevel]
      split at h
      · cases h
      · next s' htie =>
        cases h
        exact htie
    · next hne =>
      rw [if_neg hne]
      cases h
      rfl

/-! ## The side that is declared -/

def sideOf (s : Int × Int) : Side := if s.2 < s.1 then .one else .two

/-- On a score that is not level one side is declared, and only that one. -/
theorem declares_iff (hmk : TwoWay u mk idx table) (heach : Each (winnerWon idx s.1 s.2) mk outs)
    (hne : s.1 ≠ s.2) {side : Side} (hside : side = .one ∨ side = .two) :
    Declares idx outs side ↔ side = sideOf s := by
  have hresult :
    ∀ o ∈ outs, ∃ so, winnerSide o.id idx = some so ∧ (o.result = "1" ↔ so.won s.1 s.2 = true) := by
    intro o ho
    obtain ⟨b, hb, heq⟩ := heach.result o ho
    unfold winnerWon at hb
    cases hso : winnerSide o.id idx with
    | none => simp [hso] at hb
    | some so =>
      rw [hso] at hb
      cases hb
      refine ⟨so, rfl, ?_⟩
      rw [heq, boolResult_eq_one]
  have hwins : ∀ so : Side, so = .one ∨ so = .two → (so.won s.1 s.2 = true ↔ so = sideOf s) := by
    rintro so (rfl | rfl)
    · simp [Side.won, sideOf]
    · simp only [Side.won, sideOf, decide_eq_true_iff]
      split
      · simp only [reduceCtorEq, iff_false]
        omega
      · simp only [iff_true]
        omega
  constructor
  · -- the outcome of the side exists, so it wins
    intro h
    obtain ⟨id, hid, hof⟩ : ∃ id ∈ mk.outcomeIds, winnerSide id idx = some side := by
      rcases hside with rfl | rfl
      · exact hmk.one
      · exact hmk.two
    obtain ⟨o, ho, rfl⟩ := heach.mem.mp hid
    obtain ⟨so, hso, hiff⟩ := hresult o ho
    obtain rfl := Option.some.inj (hso.symm.trans hof)
    exact (hwins so hside).mp (hiff.mp ((h o ho).mpr hso))
  · rintro rfl o ho
    obtain ⟨so, hso, hiff⟩ := hresult o ho
    have htwo : so = .one ∨ so = .two := by
      have h := hmk.sides o.id (heach.mem.mpr ⟨o, ho, rfl⟩)
      rw [hso, Option.some_inj, Option.some_inj] at h
      exact h
    rw [hiff, hwins so htwo, hso, Option.some_inj]

/-- What a two-way winner market of a match is settled on. -/
theorem settles_twoWay (hrule : ruleOf sport = some rule) (hmk : TwoWay u mk idx table)
    (hwhole : t.whole = true) (h : Settles u mk idx table t sport ss s outs) :
    s.1 ≠ s.2 ∧ Each (winnerWon idx s.1 s.2) mk outs ∧
      (if rule.fight then some (ss.main.home, ss.main.away)
        else if onGames u rule table then decided ss (games ss) else headlineScore rule ss) = some s := by
  have hnoline : ∀ side ∈ ["h1", "h2", "over", "under"], side.toList ∉ mk.outcomeIds := by
    intro side hside hmem
    have hsides := hmk.sides _ hmem
    rw [winnerSide_line idx hside] at hsides
    simp at hsides
  cases h with
  | fightWinner fight whole kind hdecided each =>
    rw [ruleFor_of_ruleOf hrule] at fight
    rw [if_pos fight]
    refine ⟨hdecided, ⟨each.ids, fun o ho => ?_⟩, rfl⟩
    obtain ⟨b, hb, heq⟩ := each.result o ho
    exact ⟨b, (fightWinnerWon_eq idx hdecided o.id).symm.trans hb, heq⟩
  | fightTotal fight whole length overWon rounds each =>
    -- its outcomes would be over and under
    obtain ⟨id, hid, -⟩ := hmk.one
    obtain ⟨o, ho, rfl⟩ := each.mem.mp hid
    obtain ⟨b, hb, -⟩ := each.result o ho
    unfold fightTotalWon at hb
    split at hb
    · next hover => exact absurd (hover ▸ hid) (hnoline "over" (by decide))
    · split at hb
      · next hunder => exact absurd (hunder ▸ hid) (hnoline "under" (by decide))
      · cases hb
  | bothTeams plain shape =>
    rw [hmk.notBoth] at shape
    cases shape
  | doubleChance plain notBoth kind =>
    rw [hmk.notDouble] at kind
    cases kind
  | winner plain notBoth notDouble kind score each =>
    rw [ruleFor_of_ruleOf hrule, hwhole, Bool.and_true] at plain
    rw [plain]
    have hscore := winnerScore_whole hrule hwhole hmk.noDraw score
    refine ⟨?_, each, hscore⟩
    split at hscore
    · exact decided_ne hscore
    · unfold headlineScore at hscore
      simp only at hscore
      split at hscore
      · exact breakTie_ne hscore
      · next hne =>
        cases hscore
        exact hne
  | line plain notBoth sides known score =>
    have hmem : ∃ side ∈ ["h1", "h2", "over", "under"], side.toList ∈ mk.outcomeIds := by
      unfold hasSides at sides
      simp only [Bool.and_eq_true, List.contains_iff_mem] at sides
      rcases known with ⟨rfl, -⟩ | ⟨rfl, -⟩
      · exact ⟨"h1", by decide, sides.1.1⟩
      · exact ⟨"over", by decide, sides.1.1⟩
    obtain ⟨side, hside, hin⟩ := hmem
    exact absurd hin (hnoline side hside)

/-- Where sets are counted: the declared side has more sets exactly if they decide. -/
theorem wonSets_iff (hset : rule.otIncluded = false)
    (hscore : (if onGames u rule table then decided ss (games ss) else headlineScore rule ss) = some s)
    (hne : s.1 ≠ s.2) : WonSets ss (sideOf s) ↔ SetsDecide u rule table ss := by
  have hside : WonSets ss (sideOf s) ↔
      ss.main.home ≠ ss.main.away ∧ (s.2 < s.1 ↔ ss.main.away < ss.main.home) := by
    unfold WonSets sideOf
    split
    · simp only [true_and, reduceCtorEq, false_and, or_false]
      omega
    · simp only [true_and, reduceCtorEq, false_and, false_or]
      omega
  rw [hside]
  unfold SetsDecide
  refine and_congr_right fun hmain => ?_
  by_cases hgames : onGames u rule table = true
  · rw [if_pos hgames] at hscore
    simp [hgames, hscore]
  · rw [if_neg hgames, headlineScore_sets hset] at hscore
    unfold decided at hscore
    rw [if_neg hmain] at hscore
    cases hscore
    simp [hgames]

/-! ## Two markets -/

/-- Two graded winner markets of one match declare one side, which in a set-based sport
has won more sets, exactly if there the sets decide both. -/
theorem match_winners_agree_iff (u : Unicode) (idx : Index) (sport : Int) (rule : SportRule)
    (ss : ScoreSet)
    (mk mk' : Market) (table table' : TableMeta) (label label' : List Char)
    (outs outs' : List Outcome)
    (hrule : ruleOf sport = some rule)
    (htable : idx.tables mk.tableNum = some table) (htable' : idx.tables mk'.tableNum = some table')
    (hmk : TwoWay u mk idx table) (hmk' : TwoWay u mk' idx table')
    (hwhole : WholeMatch u label sport) (hwhole' : WholeMatch u label' sport)
    (h : Grade u mk idx label sport ss = .ok outs)
    (h' : Grade u mk' idx label' sport ss = .ok outs') :
    (∃ side, (side = .one ∨ side = .two) ∧ Declares idx outs side ∧ Declares idx outs' side ∧
      (rule.setBased = true → WonSets ss side)) ↔
    (rule.setBased = true → SetsDecide u rule table ss ∧ SetsDecide u rule table' ss) := by
  have hone : ∀ {mk : Market} {table : TableMeta} {label : List Char} {outs : List Outcome},
      idx.tables mk.tableNum = some table → TwoWay u mk idx table → WholeMatch u label sport →
        Grade u mk idx label sport ss = .ok outs →
          ∃ s, s.1 ≠ s.2 ∧ Each (winnerWon idx s.1 s.2) mk outs ∧
            (if rule.fight then some (ss.main.home, ss.main.away)
              else if onGames u rule table then decided ss (games ss) else headlineScore rule ss) = some s := by
    intro mk table label outs htable hmk hwhole h
    obtain ⟨table₁, t, s, htable₁, ht, hs⟩ := grade_ok h
    obtain ⟨t₁, ht₁, hwhole⟩ := hwhole
    obtain rfl := Option.some.inj (htable.symm.trans htable₁)
    obtain rfl := Option.some.inj (ht.symm.trans ht₁)
    exact ⟨s, settles_twoWay hrule hmk hwhole hs⟩
  obtain ⟨s, hne, heach, hscore⟩ := hone htable hmk hwhole h
  obtain ⟨s', hne', heach', hscore'⟩ := hone htable' hmk' hwhole' h'
  have hsides : sideOf s = .one ∨ sideOf s = .two := by
    unfold sideOf
    split
    · exact .inl rfl
    · exact .inr rfl
  by_cases hset : rule.setBased = true
  · obtain ⟨hot, hfight⟩ := rule_kinds hrule hset
    rw [hfight, if_neg Bool.false_ne_true] at hscore hscore'
    simp only [hset, forall_const]
    rw [← wonSets_iff hot hscore hne, ← wonSets_iff hot hscore' hne']
    constructor
    · rintro ⟨side, hside, hdecl, hdecl', hwon⟩
      have heq := (declares_iff hmk heach hne hside).mp hdecl
      have heq' := (declares_iff hmk' heach' hne' hside).mp hdecl'
      exact ⟨heq ▸ hwon, heq' ▸ hwon⟩
    · -- both are the side with more sets
      rintro ⟨hwon, hwon'⟩
      have heq : sideOf s = sideOf s' := by
        rcases hwon with ⟨h₁, hlt₁⟩ | ⟨h₁, hlt₁⟩
        · rcases hwon' with ⟨h₂, -⟩ | ⟨-, hlt₂⟩
          · rw [h₁, h₂]
          · omega
        · rcases hwon' with ⟨-, hlt₂⟩ | ⟨h₂, -⟩
          · omega
          · rw [h₁, h₂]
      exact ⟨sideOf s, hsides, (declares_iff hmk heach hne hsides).mpr rfl,
        (declares_iff hmk' heach' hne' hsides).mpr heq, hwon⟩
  · -- one score for both
    have hgames : ∀ table : TableMeta, onGames u rule table = false := by
      intro table
      unfold onGames
      rw [Bool.eq_false_iff.mpr hset]
      rfl
    rw [hgames] at hscore hscore'
    obtain rfl := Option.some.inj (hscore.symm.trans hscore')
    refine iff_of_true ⟨sideOf s, hsides, (declares_iff hmk heach hne hsides).mpr rfl,
      (declares_iff hmk' heach' hne' hsides).mpr rfl, fun h => absurd h hset⟩ fun h => absurd h hset

/-! ## A tennis match -/

/-- The flagged table 120 and the plain table 491. -/
def catalogue : Index where
  factors f := if f = 7035 then some ['1'] else if f = 7036 then some ['2'] else none
  tables n :=
    if n = 120 then some ⟨"Match result".toList, .none, true, [[921, 923]]⟩
    else if n = 491 then some ⟨"To win the match".toList, .none, false, [[7035, 7036]]⟩
    else none

def matchResult : Market := ⟨120, false, fun _ => none, [['1'], ['2']], by decide⟩

def toWinTheMatch : Market := ⟨491, false, fun _ => none, ["7035".toList, "7036".toList], by decide⟩

/-- Two sets to one or to none, with the games in them. -/
def setScore (away : Int) (games : List (Int × Int)) : ScoreSet :=
  ⟨⟨2, away, games⟩, none, none, fun _ => none, []⟩

def wonBy (home : Bool) (id id' : String) : List Outcome :=
  [⟨id.toList, boolResult home, ""⟩, ⟨id'.toList, boolResult !home, ""⟩]

theorem matchResult_twoWay {table : TableMeta} (h : catalogue.tables 120 = some table) :
    TwoWay ascii matchResult catalogue table := by
  obtain rfl := Option.some.inj h
  exact ⟨by decide, rfl, by decide, by decide, by decide, by decide, by decide⟩

theorem toWinTheMatch_twoWay {table : TableMeta} (h : catalogue.tables 491 = some table) :
    TwoWay ascii toWinTheMatch catalogue table := by
  obtain rfl := Option.some.inj h
  exact ⟨by decide, rfl, by decide, by decide, by decide, by decide, by decide⟩

theorem wholeMatch_nil : WholeMatch ascii [] 4 := ⟨{}, rfl, rfl⟩

/-- 6:3 and 7:5. -/
theorem straight_sets_agree :
    Grade ascii matchResult catalogue [] 4 (setScore 0 [(6, 3), (7, 5)]) = .ok
      (wonBy true "1" "2") ∧
    Grade ascii toWinTheMatch catalogue [] 4 (setScore 0 [(6, 3), (7, 5)]) = .ok
      (wonBy true "7035" "7036") ∧
    ∃ side, (side = .one ∨ side = .two) ∧ Declares catalogue (wonBy true "1" "2") side ∧
      Declares catalogue (wonBy true "7035" "7036") side ∧
        WonSets (setScore 0 [(6, 3), (7, 5)]) side := by
  have hgrade : Grade ascii matchResult catalogue [] 4 (setScore 0 [(6, 3), (7, 5)]) =
      .ok (wonBy true "1" "2") := by rfl
  have hgrade' : Grade ascii toWinTheMatch catalogue [] 4 (setScore 0 [(6, 3), (7, 5)]) =
      .ok (wonBy true "7035" "7036") := by rfl
  refine ⟨hgrade, hgrade', ?_⟩
  obtain ⟨side, hside, hdecl, hdecl', hwon⟩ :=
    (match_winners_agree_iff ascii catalogue 4 { setBased := true }
    (setScore 0 [(6, 3), (7, 5)]) matchResult toWinTheMatch _ _ [] [] _ _ rfl rfl rfl (matchResult_twoWay rfl)
    (toWinTheMatch_twoWay rfl) wholeMatch_nil wholeMatch_nil hgrade hgrade').mpr fun _ =>
      ⟨⟨by decide, fun h => absurd h (by decide)⟩,
        ⟨by decide, fun _ => ⟨(13, 8), by decide, by decide⟩⟩⟩
  exact ⟨side, hside, hdecl, hdecl', hwon rfl⟩

/-- 7:6, 0:6 and 7:6: the home side has two sets to one, the away side 18 games to 14. -/
theorem more_games_graded_winner :
    ¬ ∀ (u : Unicode) (idx : Index) (sport : Int) (rule : SportRule) (ss : ScoreSet)
    (mk mk' : Market) (table table' : TableMeta) (label label' : List Char)
    (outs outs' : List Outcome),
    ruleOf sport = some rule → idx.tables mk.tableNum = some table →
    idx.tables mk'.tableNum = some table' →
      TwoWay u mk idx table → TwoWay u mk' idx table' → WholeMatch u label sport →
      WholeMatch u label' sport →
        Grade u mk idx label sport ss = .ok outs → Grade u mk' idx label' sport ss = .ok outs' →
          ∃ side, (side = .one ∨ side = .two) ∧ Declares idx outs side ∧ Declares idx outs' side ∧
            (rule.setBased = true → WonSets ss side) := by
  intro h
  obtain ⟨side, -, hdecl, hdecl', -⟩ :=
    h ascii catalogue 4 { setBased := true } (setScore 1 [(7, 6), (0, 6), (7, 6)])
    matchResult toWinTheMatch _ _ [] [] (wonBy true "1" "2") (wonBy false "7035" "7036") rfl rfl rfl
    (matchResult_twoWay rfl) (toWinTheMatch_twoWay rfl) wholeMatch_nil wholeMatch_nil rfl rfl
  have hone := (hdecl _ (List.mem_cons_self ..)).mp rfl
  have htwo := (hdecl' _ (List.mem_cons_of_mem _ (List.mem_cons_self ..))).mp rfl
  have hside :=
    Option.some.inj (hone.symm.trans (show winnerSide ['1'] catalogue = some .one from rfl))
  have hside' := Option.some.inj (htwo.symm.trans
    (show winnerSide "7036".toList catalogue = some .two from rfl))
  rw [hside] at hside'
  cases hside'

end Oddzilla.Fonbet.Settle
