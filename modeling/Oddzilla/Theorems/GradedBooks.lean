import Oddzilla.Logic.ScoreParts

/-!
# Graded markets are books

All outcomes of a graded winner market are read off one ending of the match, or of the
part its label points at.  So one of home, draw and away wins, double chance on the same
score is what that outcome implies, and every outcome has its one result.
-/

namespace Oddzilla.Fonbet.Settle

variable {u : Unicode} {mk mk' : Market} {idx : Index} {table table' : TableMeta} {t : LabelTarget}
  {sport : Int} {rule : SportRule} {ss : ScoreSet} {s s' : Int × Int} {outs outs' : List Outcome} {e : Ending}

/-! ## Books -/

def Outcome.won (o : Outcome) : Prop := o.result = "1" ∧ o.voidFactor = ""

def Outcome.lost (o : Outcome) : Prop := o.result = "0" ∧ o.voidFactor = ""

def Outcome.void (o : Outcome) : Prop := o.result = "1" ∧ o.voidFactor = "1"

/-- One outcome wins and the others lose, or all are void. -/
def OneWins (outs : List Outcome) : Prop :=
  (∃ o ∈ outs, o.won ∧ ∀ o' ∈ outs, o' ≠ o → o'.lost) ∨ ∀ o ∈ outs, o.void

/-- One outcome of the market has the side. -/
def Offers (mk : Market) (idx : Index) (side : Side) : Prop :=
  ∃ id ∈ mk.outcomeIds, winnerSide id idx = some side ∧
    ∀ id' ∈ mk.outcomeIds, winnerSide id' idx = some side → id' = id

/-- Home, draw and away; in a sub-event the double-chance cells stay beside them. -/
structure OneXTwo (mk : Market) (idx : Index) : Prop where
  notDouble : mk.doubleChance = false
  sided : ∀ id ∈ mk.outcomeIds, (winnerSide id idx).isSome
  one : Offers mk idx .one
  draw : Offers mk idx .x
  two : Offers mk idx .two

/-- Home and away, and no draw. -/
structure HomeAway (mk : Market) (idx : Index) : Prop where
  notDouble : mk.doubleChance = false
  noDraw : hasDraw mk idx = false
  sided : ∀ id ∈ mk.outcomeIds, winnerSide id idx = some .one ∨ winnerSide id idx = some .two
  one : Offers mk idx .one
  two : Offers mk idx .two

structure DoubleChance (mk : Market) (idx : Index) : Prop where
  flagged : mk.doubleChance = true
  sided : ∀ id ∈ mk.outcomeIds, ∃ side, winnerSide id idx = some side ∧ side.single = false

/-- The two corners, with or without the draw. -/
structure Corners (mk : Market) (idx : Index) : Prop where
  sided : ∀ id ∈ mk.outcomeIds, ∃ side, winnerSide id idx = some side ∧ side.single = true
  one : Offers mk idx .one
  two : Offers mk idx .two

/-- A whole-bout market of a fight sport: the winner or the total of rounds. -/
def FightMarket (mk : Market) (idx : Index) (t : LabelTarget) (sport : Int) : Prop :=
  (ruleFor sport).fight = true ∧ t.whole = true ∧
    (Corners mk idx ∨ mk.outcomeIds.Perm ["over".toList, "under".toList])

/-- The outcomes home, draw and away of a market. -/
def singles (idx : Index) (outs : List Outcome) : List Outcome :=
  outs.filter fun o => (winnerSide o.id idx).any Side.single

/-- Double chance of a single side. -/
def Side.includes : Side → Side → Bool
  | .oneX, s => s = .one || s = .x
  | .oneTwo, s => s = .one || s = .two
  | .xTwo, s => s = .x || s = .two
  | _, _ => false

/-- A double-chance outcome wins if the winner of the other market is one of its two, and
else it loses. -/
def Implies (idx : Index) (outs outs' : List Outcome) : Prop :=
  ∀ o' ∈ outs', ∀ side, winnerSide o'.id idx = some side → side.single = false →
    (o'.won ∨ o'.lost) ∧ (o'.won ↔ ∃ o ∈ outs, o.won ∧
      ∃ s, winnerSide o.id idx = some s ∧ s.single = true ∧ side.includes s = true)

/-! ## One ending -/

/-- All outcomes are read off one ending. -/
def Book (idx : Index) (outs : List Outcome) (e : Ending) : Prop :=
  ∀ o ∈ outs, ∃ side, winnerSide o.id idx = some side ∧ o = ⟨o.id, boolResult (side.covers e), ""⟩

def Ending.side : Ending → Side
  | .home => .one
  | .draw => .x
  | .away => .two

theorem Side.covers_single {side : Side} (h : side.single = true) (e : Ending) :
    side.covers e = true ↔ side = e.side := by
  cases side <;> cases e <;> revert h <;> decide

theorem Side.covers_double {side : Side} (h : side.single = false) (e : Ending) :
    side.covers e = side.includes e.side := by
  cases side <;> cases e <;> revert h <;> decide

theorem Ending.side_single (e : Ending) : e.side.single = true := by cases e <;> rfl

theorem boolResult_won {id : List Char} {b : Bool} :
    (⟨id, boolResult b, ""⟩ : Outcome).won ↔ b = true := by
  unfold Outcome.won
  rw [boolResult_eq_one, and_iff_left rfl]

theorem boolResult_lost {id : List Char} {b : Bool} :
    (⟨id, boolResult b, ""⟩ : Outcome).lost ↔ b = false := by
  cases b <;> simp [Outcome.lost, boolResult]

theorem boolResult_oneWins {id id' : List Char} (b : Bool) :
    OneWins [⟨id, boolResult b, ""⟩, ⟨id', boolResult !b, ""⟩] := by
  cases b with
  | true =>
    refine .inl ⟨_, List.mem_cons_self .., boolResult_won.mpr rfl, fun o ho hne => ?_⟩
    rcases List.mem_pair.mp ho with rfl | rfl
    · exact absurd rfl hne
    · exact boolResult_lost.mpr rfl
  | false =>
    refine .inl ⟨_, List.mem_cons_of_mem _ (List.mem_cons_self ..), boolResult_won.mpr rfl,
      fun o ho hne => ?_⟩
    rcases List.mem_pair.mp ho with rfl | rfl
    · exact boolResult_lost.mpr rfl
    · exact absurd rfl hne

theorem OneWins.perm (h : OneWins outs) (hperm : outs'.Perm outs) : OneWins outs' := by
  rcases h with ⟨o, ho, hwon, hlost⟩ | hvoid
  · exact .inl ⟨o, hperm.mem_iff.mpr ho, hwon, fun o' ho' => hlost o' (hperm.mem_iff.mp ho')⟩
  · exact .inr fun o ho => hvoid o (hperm.mem_iff.mp ho)

/-- Of single sides, with the ending's among them once, one wins. -/
theorem oneWins_of_book (hbook : Book idx outs e) (hids : (outs.map Outcome.id).Nodup)
    (hsingle : ∀ o ∈ outs, ∀ side, winnerSide o.id idx = some side → side.single = true)
    (hoffer : ∃ o ∈ outs, winnerSide o.id idx = some e.side ∧
      ∀ o' ∈ outs, winnerSide o'.id idx = some e.side → o'.id = o.id) : OneWins outs := by
  obtain ⟨o, ho, hside, hunique⟩ := hoffer
  have hcovers : ∀ o ∈ outs, ∃ side, winnerSide o.id idx = some side ∧
      o = ⟨o.id, boolResult (side.covers e), ""⟩ ∧ (side.covers e = true ↔ side = e.side) := by
    intro o ho
    obtain ⟨side, hso, heq⟩ := hbook o ho
    exact ⟨side, hso, heq, side.covers_single (hsingle o ho side hso) e⟩
  refine .inl ⟨o, ho, ?_, fun o' ho' hne => ?_⟩
  · obtain ⟨side, hso, heq, hiff⟩ := hcovers o ho
    rw [heq]
    exact boolResult_won.mpr (hiff.mpr (Option.some.inj (hso.symm.trans hside)))
  · obtain ⟨side, hso, heq, hiff⟩ := hcovers o' ho'
    have hother : side ≠ e.side := by
      intro h
      exact hne (List.inj_on_of_nodup_map hids ho' ho (hunique o' ho' (h ▸ hso)))
    rw [heq]
    exact boolResult_lost.mpr (Bool.eq_false_iff.mpr fun h => hother (hiff.mp h))

/-- Two books of one ending: the double chances of one follow from the other. -/
theorem implies_of_books (hbook : Book idx outs e) (hbook' : Book idx outs' e)
    (hoffer : ∃ o ∈ outs, winnerSide o.id idx = some e.side) : Implies idx outs outs' := by
  intro o' ho' side hside hdouble
  obtain ⟨side', hside', heq⟩ := hbook' o' ho'
  obtain rfl := Option.some.inj (hside'.symm.trans hside)
  constructor
  · rw [heq]
    cases hc : side'.covers e with
    | true => exact .inl (boolResult_won.mpr rfl)
    | false => exact .inr (boolResult_lost.mpr rfl)
  · have hwon : o'.won ↔ side'.includes e.side = true := by
      rw [heq, boolResult_won, side'.covers_double hdouble]
    rw [hwon]
    constructor
    · intro hin
      obtain ⟨o, ho, hof⟩ := hoffer
      obtain ⟨so, hso, heqo⟩ := hbook o ho
      obtain rfl := Option.some.inj (hso.symm.trans hof)
      refine ⟨o, ho, ?_, _, hso, e.side_single, hin⟩
      rw [heqo]
      exact boolResult_won.mpr ((Side.covers_single e.side_single e).mpr rfl)
    · rintro ⟨o, ho, hwono, so, hso, hsingle, hin⟩
      obtain ⟨so', hso', heqo⟩ := hbook o ho
      obtain rfl := Option.some.inj (hso'.symm.trans hso)
      rw [heqo, boolResult_won, Side.covers_single hsingle] at hwono
      exact hwono ▸ hin

theorem book_of_each (h : Each (winnerWon idx s.1 s.2) mk outs) :
    Book idx outs (endingOf s.1 s.2) := by
  intro o ho
  obtain ⟨b, hb, heq⟩ := h.result o ho
  unfold winnerWon at hb
  cases hso : winnerSide o.id idx with
  | none => simp [hso] at hb
  | some side =>
    rw [hso] at hb
    cases hb
    exact ⟨side, rfl, side.won_eq s.1 s.2 ▸ heq⟩

theorem Each.fight {h a : Int} (hne : h ≠ a)
    (heach : Each (fightWinnerWon idx (decide (a < h))) mk outs) :
    Book idx outs (endingOf h a) := by
  have hwon : Each (winnerWon idx h a) mk outs := by
    refine ⟨heach.ids, fun o ho => ?_⟩
    obtain ⟨b, hb, heq⟩ := heach.result o ho
    exact ⟨b, (fightWinnerWon_eq idx hne o.id).symm.trans hb, heq⟩
  exact book_of_each (s := (h, a)) hwon

/-- The labels of double chance are no others. -/
theorem dcWon_eq {id : List Char} {side : Side} (h : winnerSide id idx = some side)
    (hdouble : side.single = false) (x y : Int) : dcWon idx x y id = winnerWon idx x y id := by
  unfold winnerWon
  rw [h]
  unfold winnerSide at h
  split at h
  · cases h
    cases hdouble
  · split at h
    · cases h
      cases hdouble
    · split at h
      · cases h
        cases hdouble
      · obtain ⟨label, hlabel, hside⟩ := Option.bind_eq_some_iff.mp h
        obtain ⟨f, hf, hfactor⟩ := Option.bind_eq_some_iff.mp hlabel
        unfold dcWon
        simp only [hf, hfactor, hside]
        cases side with
        | oneX => rfl
        | oneTwo => rfl
        | xTwo => rfl
        | _ => cases hdouble

/-! ## Every outcome once -/

theorem hasSides_perm {side side' : String} (h : hasSides mk side side' = true)
    (hne : side ≠ side') :
    [side.toList, side'.toList].Perm mk.outcomeIds := by
  unfold hasSides at h
  simp only [Bool.and_eq_true, List.contains_iff_mem, decide_eq_true_iff] at h
  obtain ⟨⟨hside, hside'⟩, hlength⟩ := h
  have hnodup : [side.toList, side'.toList].Nodup := by simpa [String.toList_inj] using hne
  have hsub : [side.toList, side'.toList] ⊆ mk.outcomeIds := by
    intro id hid
    rcases List.mem_pair.mp hid with rfl | rfl
    · exact hside
    · exact hside'
  exact (hnodup.subperm hsub).perm_of_length_le (le_of_eq hlength)

/-- The two outcomes of a both-teams market. -/
theorem bothTeams_ids {yes no : List Char} (h : bothTeamsToScore u mk idx = some (yes, no)) :
    [yes, no].Perm mk.outcomeIds ∧ (bothTeamsSide u idx yes).isSome := by
  unfold bothTeamsToScore at h
  split at h
  · next id id' hids =>
    rw [hids]
    split at h
    · next hyes hno =>
      cases h
      exact ⟨List.Perm.refl _, by rw [hyes]; rfl⟩
    · next hno hyes =>
      cases h
      exact ⟨List.Perm.swap _ _ _, by rw [hyes]; rfl⟩
    · cases h
  · cases h

/-- The results are those of the market's outcomes, one for each. -/
theorem Settles.ids (h : Settles u mk idx table t sport ss s outs) :
    (outs.map Outcome.id).Perm mk.outcomeIds := by
  cases h with
  | fightWinner _ _ _ _ each => exact each.ids
  | fightTotal _ _ _ _ _ each => exact each.ids
  | bothTeams _ shape _ => exact ((sortOutcomes_perm _).map _).trans (bothTeams_ids shape).1
  | doubleChance _ _ _ _ each => exact each.ids
  | winner _ _ _ _ _ each => exact each.ids
  | line _ _ sides known _ =>
    rcases known with ⟨rfl, rfl, -⟩ | ⟨rfl, rfl, -⟩
    · exact hasSides_perm sides (by decide)
    · exact hasSides_perm sides (by decide)

/-! ## Endings of winner markets -/

/-- The ending of the score that a market with a draw is settled on. -/
def EndsWith (u : Unicode) (ss : ScoreSet) (t : LabelTarget) (sport : Int) (table : TableMeta)
    (e : Ending) : Prop :=
  if (ruleFor sport).fight && t.whole then e = endingOf ss.main.home ss.main.away
  else ∃ x y ot, scoreFor u ss t sport table false = some (x, y, ot) ∧ e = endingOf x y

/-- Both tables count sets, or both count games. -/
def SameUnit (u : Unicode) (sport : Int) (table table' : TableMeta) : Prop :=
  onGames u (ruleFor sport) table = onGames u (ruleFor sport) table'

theorem scoreFor_congr (h : SameUnit u sport table table') (b : Bool) :
    scoreFor u ss t sport table b = scoreFor u ss t sport table' b := by
  unfold scoreFor
  cases hrule : ruleOf sport with
  | none => rfl
  | some rule =>
    unfold SameUnit at h
    rw [ruleFor_of_ruleOf hrule] at h
    simp only [h]

theorem EndsWith.unique {e' : Ending} (h : EndsWith u ss t sport table e)
    (hunit : SameUnit u sport table table')
    (h' : EndsWith u ss t sport table' e') : e = e' := by
  unfold EndsWith at h h'
  split at h
  · next hfight =>
    rw [if_pos hfight] at h'
    rw [h, h']
  · next hfight =>
    rw [if_neg hfight] at h'
    obtain ⟨x, y, ot, hscore, rfl⟩ := h
    obtain ⟨x', y', ot', hscore', rfl⟩ := h'
    rw [scoreFor_congr hunit, hscore'] at hscore
    cases hscore
    rfl

/-- A market whose outcomes are sides is no line. -/
theorem not_mem_of_sided (h : ∀ id ∈ mk.outcomeIds, (winnerSide id idx).isSome) :
    ∀ side ∈ ["h1", "h2", "over", "under"], side.toList ∉ mk.outcomeIds := by
  intro side hside hmem
  have hsome := h _ hmem
  rw [winnerSide_line idx hside] at hsome
  cases hsome

theorem Settles.not_line {side side' : String}
    (h : ∀ id ∈ mk.outcomeIds, (winnerSide id idx).isSome)
    (hsides : hasSides mk side side' = true) : ¬ (side = "h1" ∨ side = "over") := by
  unfold hasSides at hsides
  simp only [Bool.and_eq_true, List.contains_iff_mem] at hsides
  rintro (rfl | rfl)
  · exact not_mem_of_sided h "h1" (by decide) hsides.1.1
  · exact not_mem_of_sided h "over" (by decide) hsides.1.1

theorem Settles.not_rounds {overWon : Bool} (h : ∀ id ∈ mk.outcomeIds, (winnerSide id idx).isSome)
    (hne : mk.outcomeIds ≠ []) (heach : Each (fightTotalWon overWon) mk outs) : False := by
  obtain ⟨id, hid⟩ := List.exists_mem_of_ne_nil _ hne
  obtain ⟨o, ho, rfl⟩ := heach.mem.mp hid
  obtain ⟨b, hb, -⟩ := heach.result o ho
  unfold fightTotalWon at hb
  split at hb
  · next hover => exact not_mem_of_sided h "over" (by decide) (hover ▸ hid)
  · split at hb
    · next hunder => exact not_mem_of_sided h "under" (by decide) (hunder ▸ hid)
    · cases hb

theorem Offers.ne_nil {side : Side} (h : Offers mk idx side) : mk.outcomeIds ≠ [] := by
  obtain ⟨id, hid, -⟩ := h
  exact List.ne_nil_of_mem hid

theorem ofLabel_x {l : List Char} (h : Side.ofLabel l = some .x) : l = "X".toList := by
  unfold Side.ofLabel at h
  split at h
  · cases h
  · split at h
    · cases h
    · split at h
      · cases h
      · split at h
        · assumption
        · split at h
          · cases h
          · split at h <;> cases h

/-- Who offers the draw is no two-way market. -/
theorem hasDraw_of_offers (h : Offers mk idx .x) : hasDraw mk idx = true := by
  obtain ⟨id, hid, hside, -⟩ := h
  unfold hasDraw
  rw [Bool.or_eq_true]
  unfold winnerSide at hside
  split at hside
  · cases hside
  · split at hside
    · cases hside
    · split at hside
      · next h3 => exact .inl (List.contains_iff_mem.mpr (h3 ▸ hid))
      · obtain ⟨label, hlabel, hx⟩ := Option.bind_eq_some_iff.mp hside
        refine .inr (List.any_eq_true.mpr ⟨id, hid, ?_⟩)
        rw [hlabel, ofLabel_x hx, decide_eq_true_iff]

/-- Three sides do not fit two outcomes. -/
theorem OneXTwo.notBoth (hmk : OneXTwo mk idx) : bothTeamsToScore u mk idx = none := by
  rw [Option.eq_none_iff_forall_not_mem]
  rintro ⟨yes, no⟩ h
  have hids := (bothTeams_ids h).1
  obtain ⟨a, ha, hsa, -⟩ := hmk.one
  obtain ⟨b, hb, hsb, -⟩ := hmk.draw
  obtain ⟨c, hc, hsc, -⟩ := hmk.two
  rw [← hids.mem_iff, List.mem_pair] at ha hb hc
  have hab : a ≠ b := by
    rintro rfl
    rw [hsa] at hsb
    cases hsb
  have hac : a ≠ c := by
    rintro rfl
    rw [hsa] at hsc
    cases hsc
  have hbc : b ≠ c := by
    rintro rfl
    rw [hsb] at hsc
    cases hsc
  rcases ha with rfl | rfl
  · rcases hb with rfl | rfl
    · exact hab rfl
    · rcases hc with rfl | rfl
      · exact hac rfl
      · exact hbc rfl
  · rcases hb with rfl | rfl
    · rcases hc with rfl | rfl
      · exact hbc rfl
      · exact hac rfl
    · exact hab rfl

theorem oneXTwo_book (hmk : OneXTwo mk idx) (h : Settles u mk idx table t sport ss s outs) :
    ∃ e, Book idx outs e ∧ EndsWith u ss t sport table e := by
  cases h with
  | fightWinner fight whole kind decided each =>
    exact ⟨_, each.fight decided, by rw [EndsWith, fight, whole]; rfl⟩
  | fightTotal fight whole length overWon rounds each =>
    exact (Settles.not_rounds hmk.sided hmk.one.ne_nil each).elim
  | bothTeams plain shape score =>
    rw [hmk.notBoth] at shape
    cases shape
  | doubleChance plain notBoth kind score each =>
    rw [hmk.notDouble] at kind
    cases kind
  | winner plain notBoth notDouble kind score each =>
    refine ⟨_, book_of_each each, ?_⟩
    unfold winnerScore at score
    rw [hasDraw_of_offers hmk.draw] at score
    simp only [Bool.not_true, Bool.true_eq_false, and_false, if_false] at score
    split at score
    · cases score
    · next x y ot hscore =>
      cases score
      rw [EndsWith, plain]
      exact ⟨x, y, ot, hscore, rfl⟩
  | line plain notBoth sides known score =>
    exact (Settles.not_line hmk.sided sides (known.imp And.left And.left)).elim

/-- A double-chance label is too short for both teams. -/
theorem DoubleChance.notBoth (hmk : DoubleChance mk idx) : bothTeamsToScore u mk idx = none := by
  rw [Option.eq_none_iff_forall_not_mem]
  rintro ⟨yes, no⟩ h
  obtain ⟨hids, hyes⟩ := bothTeams_ids h
  obtain ⟨side, hside, hdouble⟩ := hmk.sided yes (hids.mem_iff.mp (List.mem_cons_self ..))
  have hlabel : ∃ label, idx.labelOf yes = some label ∧ label.length ≤ 2 := by
    unfold winnerSide at hside
    split at hside
    · cases hside
      cases hdouble
    · split at hside
      · cases hside
        cases hdouble
      · split at hside
        · cases hside
          cases hdouble
        · obtain ⟨label, hlabel, hof⟩ := Option.bind_eq_some_iff.mp hside
          refine ⟨label, hlabel, ?_⟩
          unfold Side.ofLabel at hof
          split_ifs at hof with h1 h2 h3 h4 h5 h6
          all_goals subst label; decide
  obtain ⟨label, hlabel, hlength⟩ := hlabel
  obtain ⟨b, hb⟩ := Option.isSome_iff_exists.mp hyes
  unfold bothTeamsSide at hb
  simp only [hlabel, Option.bind_eq_bind, Option.bind_some] at hb
  split at hb
  · cases hb
  · next hinfix =>
    simp only [Bool.not_eq_true, Bool.not_eq_false', Text.hasInfix, decide_eq_true_iff] at hinfix
    have hle := hinfix.length_le
    have htrim := (Text.trimSpace_isInfix label).length_le
    rw [Unicode.lower, List.length_map] at hle
    have hlong : ("both teams to score".toList).length = 19 := by decide
    omega

theorem doubleChance_book (hmk : DoubleChance mk idx) (hne : mk.outcomeIds ≠ [])
    (h : Settles u mk idx table t sport ss s outs) :
    ∃ e, Book idx outs e ∧ EndsWith u ss t sport table e := by
  have hsided : ∀ id ∈ mk.outcomeIds, (winnerSide id idx).isSome := by
    intro id hid
    obtain ⟨side, hside, -⟩ := hmk.sided id hid
    rw [hside]
    rfl
  cases h with
  | fightWinner fight whole kind decided each =>
    exact ⟨_, each.fight decided, by rw [EndsWith, fight, whole]; rfl⟩
  | fightTotal fight whole length overWon rounds each =>
    exact (Settles.not_rounds hsided hne each).elim
  | bothTeams plain shape score =>
    rw [hmk.notBoth] at shape
    cases shape
  | @doubleChance _ x y ot plain notBoth kind score each =>
    have heach : Each (winnerWon idx x y) mk outs := by
      refine ⟨each.ids, fun o ho => ?_⟩
      obtain ⟨b, hb, heq⟩ := each.result o ho
      obtain ⟨side, hside, hdouble⟩ := hmk.sided o.id (each.mem.mpr ⟨o, ho, rfl⟩)
      exact ⟨b, (dcWon_eq hside hdouble x y).symm.trans hb, heq⟩
    refine ⟨_, book_of_each (s := (x, y)) heach, ?_⟩
    rw [EndsWith, plain]
    exact ⟨x, y, ot, score, rfl⟩
  | winner plain notBoth notDouble kind score each =>
    rw [hmk.flagged] at notDouble
    cases notDouble
  | line plain notBoth sides known score =>
    exact (Settles.not_line hsided sides (known.imp And.left And.left)).elim

/-! ## One winner -/

theorem winnerScore_ne (hdraw : hasDraw mk idx = false)
    (h : winnerScore u mk idx ss t sport table = .ok s) :
    s.1 ≠ s.2 := by
  unfold winnerScore at h
  rw [hdraw] at h
  split at h
  · cases h
  · simp only [and_true] at h
    split at h
    · split at h
      · cases h
      · next s' htie =>
        cases h
        exact breakTie_ne htie
    · next hne =>
      cases h
      exact hne

/-- An outcome of the market is among its results. -/
theorem Offers.result {side : Side} (h : Offers mk idx side)
    (hids : (outs.map Outcome.id).Perm mk.outcomeIds) :
    ∃ o ∈ outs, winnerSide o.id idx = some side ∧ ∀ o' ∈ outs, winnerSide o'.id idx = some side →
    o'.id = o.id := by
  obtain ⟨id, hid, hside, hunique⟩ := h
  obtain ⟨o, ho, rfl⟩ := List.mem_map.mp (hids.mem_iff.mpr hid)
  exact ⟨o, ho, hside, fun o' ho' => hunique _ (hids.mem_iff.mp (List.mem_map_of_mem ho'))⟩

/-- Home and away on a score that is not level. -/
theorem oneWins_of_corners {x y : Int} (hids : (outs.map Outcome.id).Perm mk.outcomeIds)
    (hbook : Book idx outs (endingOf x y)) (hne : x ≠ y)
    (hsided : ∀ id ∈ mk.outcomeIds, ∃ side, winnerSide id idx = some side ∧ side.single = true)
    (hone : Offers mk idx .one) (htwo : Offers mk idx .two) : OneWins outs := by
  refine oneWins_of_book hbook (hids.nodup_iff.mpr mk.nodup) ?_ ?_
  · intro o ho side hside
    obtain ⟨side', hside', hsingle⟩ := hsided o.id (hids.mem_iff.mp (List.mem_map_of_mem ho))
    exact Option.some.inj (hside'.symm.trans hside) ▸ hsingle
  · rcases lt_or_gt_of_ne hne with hlt | hgt
    · rw [endingOf_away.mpr hlt]
      exact htwo.result hids
    · rw [endingOf_home.mpr hgt]
      exact hone.result hids

theorem OneXTwo.oneWins (hmk : OneXTwo mk idx) (hids : (outs.map Outcome.id).Perm mk.outcomeIds)
    (hbook : Book idx outs e) : OneWins (singles idx outs) := by
  have hsub : (singles idx outs).Sublist outs := List.filter_sublist
  have hmem : ∀ {o : Outcome}, o ∈ singles idx outs ↔
    o ∈ outs ∧ (winnerSide o.id idx).any Side.single = true :=
    List.mem_filter
  refine oneWins_of_book (fun o ho => hbook o (hsub.subset ho))
    ((hsub.map _).nodup (hids.nodup_iff.mpr mk.nodup)) ?_ ?_
  · intro o ho side hside
    have hsingle := (hmem.mp ho).2
    rwa [hside] at hsingle
  · have hoffer : Offers mk idx e.side := by
      cases e with
      | home => exact hmk.one
      | draw => exact hmk.draw
      | away => exact hmk.two
    obtain ⟨o, ho, hside, hunique⟩ := hoffer.result hids
    refine ⟨o, hmem.mpr ⟨ho, ?_⟩, hside, fun o' ho' => hunique o' (hsub.subset ho')⟩
    rw [hside]
    exact e.side_single

theorem HomeAway.oneWins (hmk : HomeAway mk idx) (h : Settles u mk idx table t sport ss s outs) :
    OneWins outs := by
  have hsingle :
    ∀ id ∈ mk.outcomeIds, ∃ side, winnerSide id idx = some side ∧ side.single = true := by
    intro id hid
    rcases hmk.sided id hid with hone | htwo
    · exact ⟨_, hone, rfl⟩
    · exact ⟨_, htwo, rfl⟩
  have hsided : ∀ id ∈ mk.outcomeIds, (winnerSide id idx).isSome := by
    intro id hid
    obtain ⟨side, hside, -⟩ := hsingle id hid
    rw [hside]
    rfl
  have hids := h.ids
  cases h with
  | fightWinner fight whole kind decided each =>
    exact oneWins_of_corners hids (each.fight decided) decided hsingle hmk.one hmk.two
  | fightTotal fight whole length overWon rounds each =>
    exact (Settles.not_rounds hsided hmk.one.ne_nil each).elim
  | bothTeams plain shape score => exact (boolResult_oneWins _).perm (sortOutcomes_perm _)
  | doubleChance plain notBoth kind score each =>
    rw [hmk.notDouble] at kind
    cases kind
  | winner plain notBoth notDouble kind score each =>
    exact oneWins_of_corners hids (book_of_each each)
      (winnerScore_ne hmk.noDraw score) hsingle hmk.one hmk.two
  | line plain notBoth sides known score =>
    exact (Settles.not_line hsided sides (known.imp And.left And.left)).elim

theorem bothTeams_oneWins (hplain : ((ruleFor sport).fight && t.whole) = false)
    (hshape : (bothTeamsToScore u mk idx).isSome) (h : Settles u mk idx table t sport ss s outs) :
    OneWins outs := by
  cases h with
  | fightWinner fight whole kind decided each =>
    rw [fight, whole] at hplain
    cases hplain
  | fightTotal fight whole length overWon rounds each =>
    rw [fight, whole] at hplain
    cases hplain
  | bothTeams plain shape score => exact (boolResult_oneWins _).perm (sortOutcomes_perm _)
  | doubleChance plain notBoth kind score each =>
    rw [notBoth] at hshape
    cases hshape
  | winner plain notBoth notDouble kind score each =>
    rw [notBoth] at hshape
    cases hshape
  | line plain notBoth sides known score =>
    rw [notBoth] at hshape
    cases hshape

/-- Over and under of a fight that is not in its deciding round. -/
theorem rounds_oneWins {overWon : Bool} (hids : mk.outcomeIds.Perm ["over".toList, "under".toList])
    (heach : Each (fightTotalWon overWon) mk outs) : OneWins outs := by
  let result : List Char → Outcome := fun id =>
    ⟨id, boolResult (if id = "over".toList then overWon else !overWon), ""⟩
  have hresult : outs = (outs.map Outcome.id).map result := by
    rw [List.map_map]
    refine (List.map_id outs).symm.trans (List.map_congr_left fun o ho => ?_)
    obtain ⟨b, hb, heq⟩ := heach.result o ho
    have hb' : b = if o.id = "over".toList then overWon else !overWon := by
      unfold fightTotalWon at hb
      split at hb
      · next hover =>
        cases hb
        exact (if_pos hover).symm
      · next hover =>
        split at hb
        · cases hb
          exact (if_neg hover).symm
        · cases hb
    rw [hb'] at heq
    exact heq
  have hperm : outs.Perm [result "over".toList, result "under".toList] := by
    rw [hresult]
    exact (heach.ids.trans hids).map result
  have hone : OneWins [result "over".toList, result "under".toList] := boolResult_oneWins overWon
  exact hone.perm hperm

theorem FightMarket.oneWins (hmk : FightMarket mk idx t sport)
    (h : Settles u mk idx table t sport ss s outs) :
    OneWins outs := by
  obtain ⟨hfight, hwhole, hshape⟩ := hmk
  have hids := h.ids
  have hno : ((ruleFor sport).fight && t.whole) ≠ false := by
    rw [hfight, hwhole]
    decide
  cases h with
  | fightWinner fight whole kind decided each =>
    rcases hshape with hcorners | hrounds
    · exact oneWins_of_corners hids
        (each.fight decided) decided hcorners.sided hcorners.one hcorners.two
    · -- over has no side
      obtain ⟨o, ho, hover⟩ := each.mem.mp (hrounds.mem_iff.mpr (List.mem_cons_self ..))
      obtain ⟨side, hside, -⟩ := each.fight decided o ho
      have hnone : winnerSide "over".toList idx = none := winnerSide_line idx (by decide)
      rw [hover, hnone] at hside
      cases hside
  | fightTotal fight whole length overWon rounds each =>
    rcases hshape with hcorners | hrounds
    · have hsided : ∀ id ∈ mk.outcomeIds, (winnerSide id idx).isSome := by
        intro id hid
        obtain ⟨side, hside, -⟩ := hcorners.sided id hid
        rw [hside]
        rfl
      exact (Settles.not_rounds hsided hcorners.one.ne_nil each).elim
    · exact rounds_oneWins hrounds each
  | bothTeams plain shape score => exact absurd plain hno
  | doubleChance plain notBoth kind score each => exact absurd plain hno
  | winner plain notBoth notDouble kind score each => exact absurd plain hno
  | line plain notBoth sides known score => exact absurd plain hno

/-! ## Graded markets -/

/-- A graded market gives every outcome one result; in a 1X2, a market for home and
away, a both-teams market and a fight one outcome wins; double chance on the same score
follows from the 1X2; and nothing is counted twice in the score. -/
theorem graded_market_is_book (u : Unicode) (idx : Index) (label : List Char) (sport : Int)
    (ss : ScoreSet)
    (mk : Market) (outs : List Outcome) (h : Grade u mk idx label sport ss = .ok outs) :
    (outs.map Outcome.id).Perm mk.outcomeIds ∧
    (OneXTwo mk idx → OneWins (singles idx outs) ∧ Implies idx outs outs ∧
      ∀ (mk' : Market) (outs' : List Outcome) (table table' : TableMeta),
        idx.tables mk.tableNum = some table →
        idx.tables mk'.tableNum = some table' → SameUnit u sport table table' →
        DoubleChance mk' idx →
          Grade u mk' idx label sport ss = .ok outs' → Implies idx outs outs') ∧
    (HomeAway mk idx → OneWins outs) ∧
    ∃ table t s parts, idx.tables mk.tableNum = some table ∧ targetOf u label sport = some t ∧
      Settles u mk idx table t sport ss s outs ∧ Counted ss t parts s ∧
      (((ruleFor sport).fight && t.whole) = false → (bothTeamsToScore u mk idx).isSome → OneWins outs) ∧
      (FightMarket mk idx t sport → OneWins outs) := by
  obtain ⟨table, t, s, htable, ht, hs⟩ := grade_ok h
  obtain ⟨parts, hcounted⟩ := hs.counted
  refine ⟨hs.ids, fun hmk => ?_, fun hmk => hmk.oneWins hs, table, t, s, parts, htable, ht, hs, hcounted,
    fun hplain hshape => bothTeams_oneWins hplain hshape hs, fun hmk => hmk.oneWins hs⟩
  obtain ⟨e, hbook, hends⟩ := oneXTwo_book hmk hs
  have hoffer : ∃ o ∈ outs, winnerSide o.id idx = some e.side := by
    have hoffers : Offers mk idx e.side := by
      cases e with
      | home => exact hmk.one
      | draw => exact hmk.draw
      | away => exact hmk.two
    obtain ⟨o, ho, hside, -⟩ := hoffers.result hs.ids
    exact ⟨o, ho, hside⟩
  refine ⟨hmk.oneWins hs.ids hbook, implies_of_books hbook hbook hoffer, ?_⟩
  intro mk' outs' table₁ table' htable₁ htable' hunit hmk' h'
  obtain rfl := Option.some.inj (htable.symm.trans htable₁)
  obtain ⟨table₂, t', s', htable₂, ht', hs'⟩ := grade_ok h'
  obtain rfl := Option.some.inj (htable'.symm.trans htable₂)
  obtain rfl := Option.some.inj (ht.symm.trans ht')
  by_cases hnil : mk'.outcomeIds = []
  · -- no outcome, nothing to follow
    have hempty := hs'.ids
    rw [hnil, List.perm_nil, List.map_eq_nil_iff] at hempty
    rw [hempty]
    exact fun o' ho' => absurd ho' List.not_mem_nil
  · obtain ⟨e', hbook', hends'⟩ := doubleChance_book hmk' hnil hs'
    rw [← hends.unique hunit hends'] at hbook'
    exact implies_of_books hbook hbook' hoffer

/-! ## A football match -/

/-- The match-result table with its double-chance cells. -/
def resultTable : Index where
  factors f :=
    if f = 924 then some "1X".toList
    else if f = 1571 then some "12".toList
    else if f = 925 then some "X2".toList
    else none
  tables n := if n = 120 then some ⟨"Match result".toList, .none, true,
    [[921, 922, 923, 924, 1571, 925]]⟩ else none

def homeDrawAway : Market := ⟨120, false, fun _ => none, [['1'], ['2'], ['3']], by decide⟩

def twoOfThree : Market :=
  ⟨120, true, fun _ => none, ["1571".toList, "924".toList, "925".toList], by decide⟩

/-- Two goals to one. -/
def twoOne : ScoreSet := ⟨⟨2, 1, [(1, 1), (1, 0)]⟩, none, none, fun _ => none, []⟩

def results (rs : List (String × Bool)) : List Outcome :=
  rs.map fun r => ⟨r.1.toList, boolResult r.2, ""⟩

/-- The home side wins its market, and with it 12 and 1X. -/
theorem two_one_books :
    Grade ascii homeDrawAway resultTable [] 1 twoOne = .ok
      (results [("1", true), ("2", false), ("3", false)]) ∧
    Grade ascii twoOfThree resultTable [] 1 twoOne = .ok
      (results [("1571", true), ("924", true), ("925", false)]) ∧
    OneWins (singles resultTable (results [("1", true), ("2", false), ("3", false)])) ∧
    Implies resultTable (results [("1", true), ("2", false), ("3", false)])
      (results [("1571", true), ("924", true), ("925", false)]) := by
  have hresult : Grade ascii homeDrawAway resultTable [] 1 twoOne =
      .ok (results [("1", true), ("2", false), ("3", false)]) := by rfl
  have hdouble : Grade ascii twoOfThree resultTable [] 1 twoOne =
      .ok (results [("1571", true), ("924", true), ("925", false)]) := by rfl
  have hmk : OneXTwo homeDrawAway resultTable :=
    ⟨rfl, by decide, by unfold Offers; decide, by unfold Offers; decide, by unfold Offers; decide⟩
  have hmk' : DoubleChance twoOfThree resultTable := by
    refine ⟨rfl, fun id hid => ?_⟩
    simp only [twoOfThree, List.mem_cons, List.not_mem_nil, or_false] at hid
    rcases hid with rfl | rfl | rfl
    · exact ⟨.oneTwo, rfl, rfl⟩
    · exact ⟨.oneX, rfl, rfl⟩
    · exact ⟨.xTwo, rfl, rfl⟩
  obtain ⟨hwins, -, himplies⟩ :=
    (graded_market_is_book ascii resultTable [] 1 twoOne homeDrawAway _ hresult).2.1 hmk
  exact ⟨hresult, hdouble, hwins, himplies twoOfThree _ _ _ rfl rfl rfl hmk' hdouble⟩

end Oddzilla.Fonbet.Settle
