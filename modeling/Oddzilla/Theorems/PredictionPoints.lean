import Mathlib.Algebra.BigOperators.Group.List.Basic
import Oddzilla.Api.Competitions
import Oddzilla.Store.Ledger

/-!
# Points and predictions

A prediction is settled once, and a participant's totals count it once.  Recording another
score does not settle it again, and editing it does not take its points back; so the points
are those of the rules in the runs in which neither happens.
-/

namespace Oddzilla.Competitions

variable {cast : String → Option Int} {db db' : Db} {rules : List Rule} {c : CompetitionId}
  {u : UserId} {m : Nat} {s : Score} {p q : Prediction} {ps : List Prediction} {nowMs : Int}
  {rv : RuleValues} {body : PredictionBody} {e : Event}

/-! ## What the rules give -/

def fires (ruleId : String) (s : Score) (p : Prediction) : Bool :=
  (ruleId = "scoring-exact-score" && exactScore s p) ||
  (ruleId = "scoring-correct-result" && correctSide s p) ||
  (ruleId = "scoring-goal-difference" && correctDiff s p) ||
  (ruleId = "scoring-tip-point" && correctTip s p)

/-- A rule without a value gives nothing. -/
def Rule.points (cast : String → Option Int) (r : Rule) : Int := (r.text.bind cast).getD 0

/-- The sum of every matching scoring rule. -/
def earned (cast : String → Option Int) (rules : List Rule) (c : CompetitionId) (s : Score)
    (p : Prediction) : Int :=
  ((rules.filter fun r => r.competitionId = c && fires r.ruleId s p).map (Rule.points cast)).sum

/-- The settled predictions are worth what the rules give for them and the stored score. -/
def PointsMatch (cast : String → Option Int) (db : Db) : Prop :=
  ∀ p ∈ db.predictions, p.settledAtMs ≠ none →
    ∃ x ∈ db.competitionMatches, x.id = p.competitionMatchId ∧ ∃ s, x.score = some s ∧
      p.pointsAwarded = some (earned cast db.rules p.competitionId s p) ∧
      p.outcome = some (outcomeOf (earned cast db.rules p.competitionId s p) s p)

def Prediction.counts (c : CompetitionId) (u : UserId) (p : Prediction) : Bool :=
  p.competitionId = c && p.userId = u && p.settledAtMs.isSome

/-- The bettor's settled predictions in the competition. -/
def settledOf (ps : List Prediction) (c : CompetitionId) (u : UserId) : List Prediction :=
  ps.filter (Prediction.counts c u)

structure Participant.Totals (ps : List Prediction) (cp : Participant) : Prop where
  points : cp.points =
    ((settledOf ps cp.competitionId cp.userId).map fun p => p.pointsAwarded.getD 0).sum
  correctCount : cp.correctCount = (settledOf ps cp.competitionId cp.userId).countP isCorrect
  totalSettled : cp.totalSettled = (settledOf ps cp.competitionId cp.userId).length
  streak : cp.streak ≤ cp.longestStreak

def TotalsMatch (db : Db) : Prop := ∀ cp ∈ db.participants, cp.Totals db.predictions

/-- An accepted request keeps what is settled: the prediction as it is, the score of its
match as it is. -/
def Kept (db : Db) : Event → Prop
  | .predict c u body nowMs =>
    predictGate db c u body nowMs = .ok () →
      ∀ p ∈ db.predictions, p.isOf body.competitionMatchId u = true → p.settledAtMs ≠ none →
        p.predicted = body.predicted ∧ p.tip = body.tip
  | .score c m s _ =>
    scoreGate db c m s = .ok () →
      ∀ p ∈ db.predictions, p.competitionMatchId = m → p.settledAtMs ≠ none →
        ∀ x ∈ db.competitionMatches, x.id = m → x.score = some s
  | _ => True

/-! ## The pivot of the rules -/

theorem sum_filter_map {α : Type} (f : α → Int) (q : α → Bool) (l : List α) :
    ((l.filter q).map f).sum = (l.map fun a => if q a = true then f a else 0).sum := by
  induction l with
  | nil => rfl
  | cons a l ih =>
    rw [List.filter_cons, List.map_cons, List.sum_cons, ← ih]
    by_cases ha : q a = true
    · rw [if_pos ha, if_pos ha, List.map_cons, List.sum_cons]
    · rw [if_neg ha, if_neg ha, zero_add]

/-- A rule is in a competition once, so the maximum is its value. -/
theorem ruleValue_eq {ruleId : String} {v : Int} (hkeyed : Rule.Keyed rules)
    (hscoring : "scoring-".toList.isPrefixOf ruleId.toList = true)
    (h : ruleValue cast rules c ruleId = .ok v) :
    v = ((rules.filter fun r => r.competitionId = c && r.ruleId = ruleId).map
      (Rule.points cast)).sum := by
  have hrows : (rules.filter fun r => r.competitionId = c &&
      "scoring-".toList.isPrefixOf r.ruleId.toList && r.ruleId = ruleId) =
      rules.filter fun r => r.competitionId = c && r.ruleId = ruleId := by
    refine List.filter_congr fun r _ => ?_
    by_cases hid : r.ruleId = ruleId
    · rw [hid, hscoring, Bool.and_true]
    · rw [decide_eq_false hid, Bool.and_false, Bool.and_false]
  dsimp only [ruleValue] at h
  rw [hrows] at h
  have hsingle : (rules.filter fun r => r.competitionId = c && r.ruleId = ruleId).Pairwise
      fun _ _ => False := by
    refine (hkeyed.filter _).imp_of_mem fun {r r'} hr hr' hne => hne ?_
    have hr := (List.mem_filter.mp hr).2
    have hr' := (List.mem_filter.mp hr').2
    rw [Bool.and_eq_true, decide_eq_true_iff, decide_eq_true_iff] at hr hr'
    exact ⟨hr.1.trans hr'.1.symm, hr.2.trans hr'.2.symm⟩
  revert h hsingle
  generalize (rules.filter fun r => r.competitionId = c && r.ruleId = ruleId) = rows
  intro h hsingle
  split at h
  · cases h
  · cases h
    match rows, hsingle with
    | [], _ => rfl
    | [r], _ =>
      show _ = Rule.points cast r + 0
      rw [add_zero]
      unfold Rule.points
      cases hv : r.text.bind cast with
      | none => simp [hv]
      | some n => simp [hv]
    | r :: r' :: rest, hsingle =>
      exact (List.rel_of_pairwise_cons hsingle (List.mem_cons_self ..)).elim

theorem ruleValues_eq (h : ruleValues cast rules c = .ok rv) :
    ruleValue cast rules c "scoring-exact-score" = .ok rv.exactScore ∧
    ruleValue cast rules c "scoring-correct-result" = .ok rv.correctResult ∧
    ruleValue cast rules c "scoring-goal-difference" = .ok rv.goalDifference ∧
    ruleValue cast rules c "scoring-tip-point" = .ok rv.tipPoint := by
  unfold ruleValues at h
  obtain ⟨_, h₁, h⟩ := bind_eq_ok.mp h
  obtain ⟨_, h₂, h⟩ := bind_eq_ok.mp h
  obtain ⟨_, h₃, h⟩ := bind_eq_ok.mp h
  obtain ⟨_, h₄, h⟩ := bind_eq_ok.mp h
  cases h
  exact ⟨h₁, h₂, h₃, h₄⟩

/-- What one rule gives is what its clause gives. -/
theorem rule_clauses (r : Rule) :
    (if (r.competitionId = c && fires r.ruleId s p) = true then r.points cast else 0) =
      (if exactScore s p then
        if (r.competitionId = c && r.ruleId = "scoring-exact-score") = true then r.points cast else 0
      else 0) +
      ((if correctSide s p then
        if (r.competitionId = c && r.ruleId = "scoring-correct-result") = true then r.points cast else 0
      else 0) +
      ((if correctDiff s p then
        if (r.competitionId = c && r.ruleId = "scoring-goal-difference") = true then r.points cast else 0
      else 0) +
      (if correctTip s p then
        if (r.competitionId = c && r.ruleId = "scoring-tip-point") = true then r.points cast else 0
      else 0))) := by
  unfold fires
  by_cases hc : r.competitionId = c
  · by_cases h₁ : r.ruleId = "scoring-exact-score"
    · simp [hc, h₁]
    · by_cases h₂ : r.ruleId = "scoring-correct-result"
      · simp [hc, h₂]
      · by_cases h₃ : r.ruleId = "scoring-goal-difference"
        · simp [hc, h₃]
        · by_cases h₄ : r.ruleId = "scoring-tip-point"
          · simp [hc, h₄]
          · simp [h₁, h₂, h₃, h₄]
  · simp [hc]

theorem sum_clause {α : Type} (b : Bool) (f : α → Int) (q : α → Bool) (l : List α) :
    (l.map fun a => if b = true then if q a = true then f a else 0 else 0).sum =
      if b = true then ((l.filter q).map f).sum else 0 := by
  cases b with
  | true => exact (sum_filter_map f q l).symm
  | false =>
    induction l with
    | nil => rfl
    | cons a l ih => simp

/-- The four clauses add up to what the rules give. -/
theorem clauses_sum (hkeyed : Rule.Keyed rules) (h : ruleValues cast rules c = .ok rv) :
    (clauses rv s p).sum = earned cast rules c s p := by
  obtain ⟨h₁, h₂, h₃, h₄⟩ := ruleValues_eq h
  have hsum : earned cast rules c s p = _ := sum_filter_map (Rule.points cast) _ rules
  rw [hsum, List.map_congr_left fun r _ => rule_clauses r, List.sum_map_add, List.sum_map_add,
    List.sum_map_add, sum_clause, sum_clause, sum_clause, sum_clause,
    ← ruleValue_eq hkeyed (by decide) h₁, ← ruleValue_eq hkeyed (by decide) h₂,
    ← ruleValue_eq hkeyed (by decide) h₃, ← ruleValue_eq hkeyed (by decide) h₄]
  simp [clauses]

/-! ## What the requests do -/

theorem score_ok {r : Scoring} (h : score cast db c m s nowMs = .ok (db', r)) :
    scoreGate db c m s = .ok () ∧ ∃ rv, ruleValues cast db.rules c = .ok rv ∧
      (db.participants.filterMap (bumpOf (newly rv m s nowMs db.predictions) c nowMs)).all
        Participant.fits = true ∧
      db' = { db.recordScore m s with
        predictions := db.predictions.map (scored rv m s nowMs)
        participants := db.participants.map fun cp =>
          (bumpOf (newly rv m s nowMs db.predictions) c nowMs cp).getD cp } := by
  unfold score at h
  split at h
  · cases h
  · next hgate =>
    unfold scoreMatchPredictions at h
    split at h
    · cases h
    · next rv hrv =>
      dsimp only at h
      split at h
      · cases h
      · split at h
        · cases h
        · split at h
          · cases h
          · next hfits =>
            cases h
            exact ⟨hgate, rv, hrv, not_not.mp hfits, rfl⟩

theorem scoreGate_match (h : scoreGate db c m s = .ok ()) :
    ∃ x ∈ db.competitionMatches, x.id = m ∧ x.competitionId = c := by
  unfold scoreGate at h
  split at h
  · cases h
  · split at h
    · cases h
    · next x hx =>
      have hfound := List.find?_some hx
      rw [Bool.and_eq_true, decide_eq_true_iff, decide_eq_true_iff] at hfound
      exact ⟨x, List.mem_of_find?_eq_some hx, hfound⟩

theorem predictGate_found (h : predictGate db c u body nowMs = .ok ()) :
    (∃ x ∈ db.competitionMatches, x.id = body.competitionMatchId ∧ x.competitionId = c) ∧
    ∃ cp ∈ db.participants, cp.competitionId = c ∧ cp.userId = u := by
  unfold predictGate at h
  split at h
  · cases h
  · split at h
    · cases h
    · split at h
      · cases h
      · split at h
        · cases h
        · split at h
          · cases h
          · next x hx =>
            split at h
            · cases h
            · split at h
              · cases h
              · split at h
                · cases h
                · next hjoined =>
                  have hfound := List.find?_some hx
                  rw [Bool.and_eq_true, decide_eq_true_iff, decide_eq_true_iff] at hfound
                  refine ⟨⟨x, List.mem_of_find?_eq_some hx, hfound⟩, ?_⟩
                  rw [Option.isNone_iff_eq_none] at hjoined
                  obtain ⟨cp, hcp⟩ := Option.ne_none_iff_exists'.mp hjoined
                  have hkey := List.find?_some hcp
                  rw [Bool.and_eq_true, decide_eq_true_iff, decide_eq_true_iff] at hkey
                  exact ⟨cp, List.mem_of_find?_eq_some hcp, hkey⟩

theorem keyed_eq {ms : List Match} (hkeyed : Match.Keyed ms) {x y : Match} (hx : x ∈ ms)
    (hy : y ∈ ms) (hid : x.id = y.id) : x = y := by
  have hsymm : Std.Symm fun x y : Match => x.id ≠ y.id := ⟨fun _ _ h => h.symm⟩
  by_contra hne
  exact hkeyed.forall hx hy hne hid

/-! ## The settled predictions after scoring -/

theorem due_iff : p.due m = true ↔ p.competitionMatchId = m ∧ p.settledAtMs = none := by
  unfold Prediction.due
  rw [Bool.and_eq_true, decide_eq_true_iff, Option.isNone_iff_eq_none]

theorem counts_iff : p.counts c u = true ↔
    p.competitionId = c ∧ p.userId = u ∧ p.settledAtMs ≠ none := by
  unfold Prediction.counts
  rw [Bool.and_eq_true, Bool.and_eq_true, decide_eq_true_iff, decide_eq_true_iff, and_assoc,
    Option.isSome_iff_ne_none]

theorem settle_counts_iff : (p.settle rv s nowMs).counts c u = true ↔
    p.competitionId = c ∧ p.userId = u := by
  rw [counts_iff]
  exact and_congr_right fun _ => and_iff_left (Option.some_ne_none nowMs)

theorem due_not_counts (h : p.due m = true) : ¬ p.counts c u = true := by
  rw [counts_iff]
  exact fun hcounts => hcounts.2.2 (due_iff.mp h).2

theorem scored_perm (hhome : ∀ p ∈ ps, p.competitionMatchId = m → p.competitionId = c) :
    (settledOf (ps.map (scored rv m s nowMs)) c u).Perm
      (settledOf ps c u ++ (newly rv m s nowMs ps).filter fun p => p.userId = u) := by
  induction ps with
  | nil => exact .nil
  | cons p ps ih =>
    have ih := ih fun q hq => hhome q (List.mem_cons_of_mem _ hq)
    unfold settledOf newly at *
    by_cases hdue : p.due m = true
    · have hc := hhome p (List.mem_cons_self ..) (due_iff.mp hdue).1
      have hscored : scored rv m s nowMs p = p.settle rv s nowMs := if_pos hdue
      rw [List.map_cons, hscored, List.filter_cons_of_neg (due_not_counts hdue),
        List.filter_cons_of_pos hdue, List.map_cons]
      by_cases hu : (p.settle rv s nowMs).userId = u
      · rw [List.filter_cons_of_pos (settle_counts_iff.mpr ⟨hc, hu⟩),
          List.filter_cons_of_pos (p := fun q : Prediction => decide (q.userId = u)) (decide_eq_true hu)]
        exact (ih.cons _).trans List.perm_middle.symm
      · have hno : ¬ (p.settle rv s nowMs).counts c u = true :=
          fun h => hu (settle_counts_iff.mp h).2
        rw [List.filter_cons_of_neg hno,
          List.filter_cons_of_neg (p := fun q : Prediction => decide (q.userId = u))
            fun h => hu (of_decide_eq_true h)]
        exact ih
    · have hscored : scored rv m s nowMs p = p := if_neg hdue
      rw [List.map_cons, hscored, List.filter_cons_of_neg hdue]
      by_cases hcounts : p.counts c u = true
      · rw [List.filter_cons_of_pos hcounts, List.filter_cons_of_pos hcounts]
        exact ih.cons _
      · rw [List.filter_cons_of_neg hcounts, List.filter_cons_of_neg hcounts]
        exact ih

/-- Another competition's predictions are not scored. -/
theorem scored_other {c' : CompetitionId} (hc : c' ≠ c)
    (hhome : ∀ p ∈ ps, p.competitionMatchId = m → p.competitionId = c) :
    settledOf (ps.map (scored rv m s nowMs)) c' u = settledOf ps c' u := by
  induction ps with
  | nil => rfl
  | cons p ps ih =>
    have ih := ih fun q hq => hhome q (List.mem_cons_of_mem _ hq)
    unfold settledOf at *
    by_cases hdue : p.due m = true
    · have hpc := hhome p (List.mem_cons_self ..) (due_iff.mp hdue).1
      have hscored : scored rv m s nowMs p = p.settle rv s nowMs := if_pos hdue
      have hno : ¬ (p.settle rv s nowMs).counts c' u = true :=
        fun h => hc ((settle_counts_iff.mp h).1.symm.trans hpc)
      rw [List.map_cons, hscored, List.filter_cons_of_neg hno,
        List.filter_cons_of_neg (due_not_counts hdue)]
      exact ih
    · have hscored : scored rv m s nowMs p = p := if_neg hdue
      rw [List.map_cons, hscored, List.filter_cons, List.filter_cons, ih]

/-! ## Totals -/

theorem Participant.Totals.perm {qs : List Prediction} {cp : Participant}
    (h : cp.Totals ps)
    (hperm : (settledOf qs cp.competitionId cp.userId).Perm
      (settledOf ps cp.competitionId cp.userId)) : cp.Totals qs where
  points := by rw [h.points, (hperm.map _).sum_eq]
  correctCount := by rw [h.correctCount, hperm.countP_eq]
  totalSettled := by rw [h.totalSettled, hperm.length_eq]
  streak := h.streak

/-- A streak that is broken is zero, and the longest one has passed its check. -/
theorem bump_streak {cp : Participant} {b : Bump} (hfits : (cp.bump nowMs b).fits = true) :
    (cp.bump nowMs b).streak ≤ (cp.bump nowMs b).longestStreak := by
  by_cases hcorrect : 0 < b.correctDelta
  · show (if 0 < b.correctDelta then cp.streak + 1 else 0) ≤
      max cp.longestStreak (if 0 < b.correctDelta then cp.streak + 1 else cp.longestStreak)
    rw [if_pos hcorrect, if_pos hcorrect]
    exact le_max_right ..
  · have hbroken : (cp.bump nowMs b).streak = 0 := if_neg hcorrect
    rw [hbroken]
    unfold Participant.fits at hfits
    rw [Bool.and_eq_true, List.all_eq_true] at hfits
    have hlongest := hfits.1 (cp.bump nowMs b).longestStreak (by simp)
    rw [Bool.and_eq_true, decide_eq_true_iff] at hlongest
    exact hlongest.2

/-- A participant is bumped by what has been settled. -/
theorem Participant.Totals.bump {qs : List Prediction} {cp : Participant} {b : Bump}
    {news : List Prediction} (h : cp.Totals ps)
    (hperm : (settledOf qs cp.competitionId cp.userId).Perm
      (settledOf ps cp.competitionId cp.userId ++ news.filter fun p => p.userId = cp.userId))
    (hb : agg news cp.userId = some b) (hfits : (cp.bump nowMs b).fits = true) :
    (cp.bump nowMs b).Totals qs := by
  unfold agg at hb
  split at hb
  · cases hb
  · next rows _ =>
    cases hb
    constructor
    · show cp.points + _ = ((settledOf qs cp.competitionId cp.userId).map _).sum
      rw [h.points, (hperm.map _).sum_eq, List.map_append, List.sum_append]
    · show cp.correctCount + _ = ((settledOf qs cp.competitionId cp.userId).countP isCorrect : Int)
      rw [h.correctCount, hperm.countP_eq, List.countP_append]
      exact (Nat.cast_add ..).symm
    · show cp.totalSettled + _ = ((settledOf qs cp.competitionId cp.userId).length : Int)
      rw [h.totalSettled, hperm.length_eq, List.length_append]
      exact (Nat.cast_add ..).symm
    · exact bump_streak hfits

theorem agg_none {news : List Prediction} (h : agg news u = none) :
    (news.filter fun p => p.userId = u) = [] := by
  unfold agg at h
  split at h
  · next hnil => exact hnil
  · cases h

/-! ## Requests -/

structure Inv (cast : String → Option Int) (db : Db) : Prop where
  homes : ∀ p ∈ db.predictions, ∃ x ∈ db.competitionMatches,
    x.id = p.competitionMatchId ∧ x.competitionId = p.competitionId
  joined : ∀ p ∈ db.predictions, ∃ cp ∈ db.participants,
    cp.competitionId = p.competitionId ∧ cp.userId = p.userId
  points : PointsMatch cast db
  totals : TotalsMatch db

/-- A new participant has no predictions yet. -/
theorem Inv.join (hi : Inv cast db) (h : join db c u = .ok db') : Inv cast db' := by
  unfold Competitions.join at h
  split at h
  · cases h
  · split at h
    · cases h
    · split at h
      · cases h
      · split at h
        · cases h
          exact hi
        · next hnew =>
          cases h
          refine ⟨hi.homes, fun p hp => ?_, hi.points, fun cp hcp => ?_⟩
          · obtain ⟨cp, hcp, hkey⟩ := hi.joined p hp
            exact ⟨cp, List.mem_append_left _ hcp, hkey⟩
          · rcases List.mem_append.mp hcp with hcp | hcp
            · exact hi.totals cp hcp
            · obtain rfl := List.mem_singleton.mp hcp
              have hnone : settledOf db.predictions c u = [] := by
                refine List.filter_eq_nil_iff.mpr fun p hp hcounts => hnew ?_
                obtain ⟨hc, hu, -⟩ := counts_iff.mp hcounts
                obtain ⟨cp, hcp, hkey⟩ := hi.joined p hp
                refine List.find?_isSome.mpr ⟨cp, hcp, ?_⟩
                rw [Bool.and_eq_true, decide_eq_true_iff, decide_eq_true_iff]
                exact ⟨hkey.1.trans hc, hkey.2.trans hu⟩
              constructor
              · show 0 = ((settledOf db.predictions c u).map _).sum
                rw [hnone]
                rfl
              · show 0 = ((settledOf db.predictions c u).countP isCorrect : Int)
                rw [hnone]
                rfl
              · show 0 = ((settledOf db.predictions c u).length : Int)
                rw [hnone]
                rfl
              · exact le_refl 0

/-- An edit leaves the settlement columns. -/
theorem Participant.Totals.map {f : Prediction → Prediction} {cp : Participant}
    (h : cp.Totals ps) (hcounts : ∀ p c u, (f p).counts c u = p.counts c u)
    (hpoints : ∀ p, (f p).pointsAwarded = p.pointsAwarded) : cp.Totals (ps.map f) := by
  have hmap : ∀ c u, settledOf (ps.map f) c u = (settledOf ps c u).map f := by
    intro c u
    unfold settledOf
    rw [List.filter_map]
    congr 1
    exact List.filter_congr fun p _ => hcounts p c u
  constructor
  · rw [h.points, hmap, List.map_map]
    congr 2
    funext p
    exact congrArg (·.getD 0) (hpoints p).symm
  · rw [h.correctCount, hmap, List.countP_map]
    congr 2
    funext p
    exact congrArg (fun n : Option Int => decide (0 < n.getD 0)) (hpoints p).symm
  · rw [h.totalSettled, hmap, List.length_map]
  · exact h.streak

/-- A settled prediction is edited to what it is. -/
theorem Inv.edit {here : Prediction → Bool} (hi : Inv cast db)
    (hkept : ∀ p ∈ db.predictions, here p = true → p.settledAtMs ≠ none →
      p.predicted = body.predicted ∧ p.tip = body.tip) :
    Inv cast { db with
      predictions := db.predictions.map fun p => if here p then p.edit body nowMs else p } := by
  have hcases {p : Prediction}
      (hp : p ∈ db.predictions.map fun p => if here p then p.edit body nowMs else p) :
      ∃ q ∈ db.predictions, p = q ∨ here q = true ∧ p = q.edit body nowMs := by
    obtain ⟨q, hq, rfl⟩ := List.mem_map.mp hp
    refine ⟨q, hq, ?_⟩
    split
    · next hhere => exact .inr ⟨hhere, rfl⟩
    · exact .inl rfl
  refine ⟨fun p hp => ?_, fun p hp => ?_, fun p hp hsettled => ?_, fun cp hcp => ?_⟩
  · obtain ⟨q, hq, rfl | ⟨-, rfl⟩⟩ := hcases hp
    · exact hi.homes p hq
    · exact hi.homes q hq
  · obtain ⟨q, hq, rfl | ⟨-, rfl⟩⟩ := hcases hp
    · exact hi.joined p hq
    · exact hi.joined q hq
  · obtain ⟨q, hq, rfl | ⟨hhere, rfl⟩⟩ := hcases hp
    · exact hi.points p hq hsettled
    · obtain ⟨hpredicted, htip⟩ := hkept q hq hhere hsettled
      have hsame : q.edit body nowMs = { q with placedAtMs := nowMs } := by
        unfold Prediction.edit
        rw [← hpredicted, ← htip]
      rw [hsame]
      exact hi.points q hq hsettled
  · refine (hi.totals cp hcp).map (fun p c u => ?_) fun p => ?_
    · split <;> rfl
    · split <;> rfl

theorem Inv.insert {p : Prediction} (hi : Inv cast db) (hnew : p.settledAtMs = none)
    (hhome : ∃ x ∈ db.competitionMatches,
      x.id = p.competitionMatchId ∧ x.competitionId = p.competitionId)
    (hjoined : ∃ cp ∈ db.participants,
      cp.competitionId = p.competitionId ∧ cp.userId = p.userId) :
    Inv cast { db with predictions := db.predictions ++ [p] } := by
  refine ⟨fun q hq => ?_, fun q hq => ?_, fun q hq hsettled => ?_, fun cp hcp => ?_⟩
  · rcases List.mem_append.mp hq with hq | hq
    · exact hi.homes q hq
    · rw [List.mem_singleton.mp hq]
      exact hhome
  · rcases List.mem_append.mp hq with hq | hq
    · exact hi.joined q hq
    · rw [List.mem_singleton.mp hq]
      exact hjoined
  · rcases List.mem_append.mp hq with hq | hq
    · exact hi.points q hq hsettled
    · rw [List.mem_singleton.mp hq] at hsettled
      exact absurd hnew hsettled
  · refine (hi.totals cp hcp).perm (.of_eq ?_)
    unfold settledOf
    rw [List.filter_append, List.filter_cons_of_neg fun h => (counts_iff.mp h).2.2 hnew]
    exact List.append_nil _

theorem Inv.predict (hi : Inv cast db) (hkept : Kept db (.predict c u body nowMs))
    (h : predict db c u body nowMs = .ok db') : Inv cast db' := by
  unfold Competitions.predict at h
  cases hgate : predictGate db c u body nowMs with
  | error e =>
    rw [hgate] at h
    cases h
  | ok v =>
    rw [hgate] at h
    cases h
    obtain ⟨hhome, hjoined⟩ := predictGate_found hgate
    show Inv cast (upsert db c u body nowMs)
    unfold upsert
    dsimp only
    split
    · exact hi.edit (hkept hgate)
    · exact hi.insert rfl hhome hjoined

theorem bumped_keys {news : List Prediction} {cp : Participant} :
    ((bumpOf news c nowMs cp).getD cp).competitionId = cp.competitionId ∧
    ((bumpOf news c nowMs cp).getD cp).userId = cp.userId := by
  unfold bumpOf
  split
  · cases agg news cp.userId <;> exact ⟨rfl, rfl⟩
  · exact ⟨rfl, rfl⟩

theorem scored_keys : (scored rv m s nowMs p).competitionId = p.competitionId ∧
    (scored rv m s nowMs p).competitionMatchId = p.competitionMatchId ∧
    (scored rv m s nowMs p).userId = p.userId := by
  unfold scored
  split <;> exact ⟨rfl, rfl, rfl⟩

theorem record_competitionId {x : Match} : (x.record m s).competitionId = x.competitionId := by
  unfold Match.record
  split <;> rfl

/-- What is settled is what the rules give; what was settled still is, as its match is not
scored otherwise. -/
theorem points_score (hp : PointsMatch cast db) (hrv : ruleValues cast db.rules c = .ok rv)
    (hhome : ∀ p ∈ db.predictions, p.competitionMatchId = m → p.competitionId = c)
    (hmatch : ∃ x ∈ db.competitionMatches, x.id = m)
    (hkept : ∀ p ∈ db.predictions, p.competitionMatchId = m → p.settledAtMs ≠ none →
      ∀ x ∈ db.competitionMatches, x.id = m → x.score = some s) :
    PointsMatch cast { db.recordScore m s with
      predictions := db.predictions.map (scored rv m s nowMs) } := by
  intro p hpmem hsettled
  obtain ⟨q, hq, rfl⟩ := List.mem_map.mp hpmem
  by_cases hdue : q.due m = true
  · have hscored : scored rv m s nowMs q = q.settle rv s nowMs := if_pos hdue
    have hqm := (due_iff.mp hdue).1
    obtain ⟨x, hx, hxid⟩ := hmatch
    have hgiven : (clauses rv s q).sum =
        earned cast db.rules q.competitionId s (q.settle rv s nowMs) := by
      rw [hhome q hq hqm]
      exact clauses_sum db.rules_keyed hrv
    rw [hscored]
    refine ⟨x.record m s, List.mem_map_of_mem hx, record_id.trans (hxid.trans hqm.symm), s, ?_, ?_,
      ?_⟩
    · unfold Match.record
      rw [if_pos hxid]
    · exact congrArg some hgiven
    · show some (outcomeOf (clauses rv s q).sum s q) = some _
      rw [hgiven]
      rfl
  · have hscored : scored rv m s nowMs q = q := if_neg hdue
    rw [hscored] at hsettled ⊢
    obtain ⟨x, hx, hxid, s', hs', hgiven⟩ := hp q hq hsettled
    refine ⟨x.record m s, List.mem_map_of_mem hx, record_id.trans hxid, s', ?_, hgiven⟩
    unfold Match.record
    by_cases hxm : x.id = m
    · rw [if_pos hxm]
      exact (hkept q hq (hxid.symm.trans hxm) hsettled x hx hxm).symm.trans hs'
    · rw [if_neg hxm]
      exact hs'

/-- A participant is bumped by the predictions that have been settled, and by no others. -/
theorem totals_score {cp : Participant} (h : cp.Totals ps)
    (hhome : ∀ p ∈ ps, p.competitionMatchId = m → p.competitionId = c)
    (hfits : ∀ cp', bumpOf (newly rv m s nowMs ps) c nowMs cp = some cp' → cp'.fits = true) :
    ((bumpOf (newly rv m s nowMs ps) c nowMs cp).getD cp).Totals
      (ps.map (scored rv m s nowMs)) := by
  by_cases hc : cp.competitionId = c
  · have hbump : bumpOf (newly rv m s nowMs ps) c nowMs cp =
        (agg (newly rv m s nowMs ps) cp.userId).map fun b => cp.bump nowMs b := if_pos hc
    have hperm : (settledOf (ps.map (scored rv m s nowMs)) cp.competitionId cp.userId).Perm
        (settledOf ps cp.competitionId cp.userId ++
          (newly rv m s nowMs ps).filter fun p => p.userId = cp.userId) := by
      rw [hc]
      exact scored_perm hhome
    rw [hbump] at hfits ⊢
    cases hagg : agg (newly rv m s nowMs ps) cp.userId with
    | none =>
      rw [agg_none hagg, List.append_nil] at hperm
      exact h.perm hperm
    | some b => exact h.bump hperm hagg (hfits _ (by rw [hagg]; rfl))
  · have hbump : bumpOf (newly rv m s nowMs ps) c nowMs cp = none := if_neg hc
    rw [hbump]
    exact h.perm (.of_eq (scored_other hc hhome))

theorem Inv.score {r : Scoring} (hi : Inv cast db) (hkept : Kept db (.score c m s nowMs))
    (h : score cast db c m s nowMs = .ok (db', r)) : Inv cast db' := by
  obtain ⟨hgate, rv, hrv, hfits, rfl⟩ := score_ok h
  obtain ⟨x, hx, hxid, hxc⟩ := scoreGate_match hgate
  have hhome : ∀ p ∈ db.predictions, p.competitionMatchId = m → p.competitionId = c := by
    intro p hp hpm
    obtain ⟨y, hy, hyid, hyc⟩ := hi.homes p hp
    rw [keyed_eq db.competitionMatches_keyed hy hx (hyid.trans (hpm.trans hxid.symm))] at hyc
    exact hyc.symm.trans hxc
  refine ⟨fun p hp => ?_, fun p hp => ?_, ?_, fun cp hcp => ?_⟩
  · obtain ⟨q, hq, rfl⟩ := List.mem_map.mp hp
    obtain ⟨y, hy, hyid, hyc⟩ := hi.homes q hq
    exact ⟨y.record m s, List.mem_map_of_mem hy,
      record_id.trans (hyid.trans scored_keys.2.1.symm),
      record_competitionId.trans (hyc.trans scored_keys.1.symm)⟩
  · obtain ⟨q, hq, rfl⟩ := List.mem_map.mp hp
    obtain ⟨cp, hcp, hkc, hku⟩ := hi.joined q hq
    exact ⟨_, List.mem_map_of_mem hcp, bumped_keys.1.trans (hkc.trans scored_keys.1.symm),
      bumped_keys.2.trans (hku.trans scored_keys.2.2.symm)⟩
  · exact points_score hi.points hrv hhome ⟨x, hx, hxid⟩ (hkept hgate)
  · obtain ⟨cp₀, hcp₀, rfl⟩ := List.mem_map.mp hcp
    refine totals_score (hi.totals cp₀ hcp₀) hhome fun cp' hcp' => ?_
    exact List.all_eq_true.mp hfits cp' (List.mem_filterMap.mpr ⟨cp₀, hcp₀, hcp'⟩)

/-! ## Runs -/

theorem Inv.step (hi : Inv cast db) (hkept : Kept db e) (h : step cast db e = some db') :
    Inv cast db' := by
  cases e with
  | join c u =>
    cases hjoin : Competitions.join db c u with
    | error code =>
      rw [Competitions.step, hjoin] at h
      cases h
      exact hi
    | ok db₁ =>
      rw [Competitions.step, hjoin] at h
      cases h
      exact hi.join hjoin
  | predict c u body nowMs =>
    cases hpredict : Competitions.predict db c u body nowMs with
    | error code =>
      rw [Competitions.step, hpredict] at h
      cases h
      exact hi
    | ok db₁ =>
      rw [Competitions.step, hpredict] at h
      cases h
      exact hi.predict hkept hpredict
  | score c m s nowMs =>
    cases hscore : Competitions.score cast db c m s nowMs with
    | error code =>
      rw [Competitions.step, hscore] at h
      cases h
      exact hi
    | ok out =>
      rw [Competitions.step, hscore] at h
      cases h
      exact hi.score hkept hscore
  | setStatus c status =>
    cases h
    exact ⟨hi.homes, hi.joined, hi.points, hi.totals⟩

/-- While what is settled is kept, every settled prediction is worth what the rules give
for the stored score, and the participants' totals are the sums over them. -/
theorem points_match_predictions {db₀ : Db} {events : List Event}
    (hparticipants : db₀.participants = []) (hpredictions : db₀.predictions = [])
    (hrun : Trace.run (step cast) db₀ events = some db)
    (hkept : Trace.Before (step cast) Kept db₀ events) : PointsMatch cast db ∧ TotalsMatch db := by
  have hstart : Inv cast db₀ := by
    constructor
    · rw [hpredictions]
      exact fun p hp => absurd hp List.not_mem_nil
    · rw [hpredictions]
      exact fun p hp => absurd hp List.not_mem_nil
    · intro p hp
      rw [hpredictions] at hp
      exact absurd hp List.not_mem_nil
    · intro cp hcp
      rw [hparticipants] at hcp
      exact absurd hcp List.not_mem_nil
  have hi : Inv cast db :=
    Trace.run_invariant (fun db e db' hi hk h => hi.step hk h) hstart hkept hrun
  exact ⟨hi.points, hi.totals⟩

/-! ## One competition, one match -/

instance (db : Db) : ∀ e, Decidable (Kept db e)
  | .predict _ _ body _ => inferInstanceAs (Decidable (_ = Except.ok () →
      ∀ p ∈ db.predictions, p.isOf body.competitionMatchId _ = true → p.settledAtMs ≠ none → _))
  | .score _ m s _ => inferInstanceAs (Decidable (_ = Except.ok () →
      ∀ p ∈ db.predictions, p.competitionMatchId = m → p.settledAtMs ≠ none →
        ∀ x ∈ db.competitionMatches, x.id = m → x.score = some s))
  | .join _ _ => isTrue trivial
  | .setStatus _ _ => isTrue trivial

namespace Sample

def cup : CompetitionId := .ofDigit 1

def fan : UserId := .ofDigit 2

/-- Three points for the winner of the match; kickoff is at 100. -/
def live : Db where
  competitions := [{ id := cup, type := .prediction, status := .live }]
  rules := [{ competitionId := cup, ruleId := "scoring-correct-result", value := some "3" }]
  rules_keyed := List.pairwise_singleton ..
  competitionMatches := [{ id := 1, competitionId := cup, kickoffAtMs := 100 }]
  competitionMatches_keyed := List.pairwise_singleton ..

def homeWins : PredictionBody := ⟨1, ⟨1, 0⟩, none⟩

def settledOnce : List Event :=
  [.join cup fan, .predict cup fan homeWins 10, .score cup 1 ⟨2, 0⟩ 20]

/-- The score is corrected. -/
def corrected : List Event := settledOnce ++ [.score cup 1 ⟨0, 2⟩ 30]

/-- The prediction is edited before kickoff, after a score has been recorded. -/
def edited : List Event := settledOnce ++ [.predict cup fan ⟨1, ⟨0, 1⟩, none⟩ 30]

def settled (predicted : Score) (placedAtMs : Int) : Prediction where
  competitionId := cup
  competitionMatchId := 1
  userId := fan
  predicted := predicted
  tip := none
  placedAtMs := placedAtMs
  pointsAwarded := some 3
  outcome := some "partial"
  settledAtMs := some 20

def final (s : Score) : Match :=
  { id := 1, competitionId := cup, kickoffAtMs := 100, done := true, score := some s }

end Sample

open Sample in
theorem points_match_predictions_once :
    ∃ db, Trace.run (step parseInt) live settledOnce = some db ∧
      db.predictions = [settled ⟨1, 0⟩ 10] ∧
      PointsMatch parseInt db ∧ TotalsMatch db := by
  have hplay : ((Trace.run (step parseInt) live settledOnce).map (·.predictions)) =
      some [settled ⟨1, 0⟩ 10] := by decide
  obtain ⟨db, hrun, hpredictions⟩ := Option.map_eq_some_iff.mp hplay
  have hkept : Trace.Before (step parseInt) Kept live settledOnce := by decide
  exact ⟨db, hrun, hpredictions, points_match_predictions rfl rfl hrun hkept⟩

open Sample in
/-- Neither a corrected score nor an edit after the match has been scored takes the points
back. -/
theorem stale_points :
    (∃ db, Trace.run (step parseInt) live corrected = some db ∧
      ¬ PointsMatch parseInt db) ∧
    ∃ db, Trace.run (step parseInt) live edited = some db ∧
      ¬ PointsMatch parseInt db := by
  have hstale (db : Db) (p : Prediction) (s : Score)
      (hplay : (db.predictions, db.competitionMatches) = ([p], [final s]))
      (hsettled : p.settledAtMs ≠ none)
      (hno : p.pointsAwarded ≠ some (earned parseInt db.rules p.competitionId s p)) :
      ¬ PointsMatch parseInt db := by
    intro hmatch
    obtain ⟨hpredictions, hmatches⟩ := Prod.mk.inj hplay
    have hp : p ∈ db.predictions := by
      rw [hpredictions]
      exact List.mem_singleton_self p
    obtain ⟨x, hx, -, s', hs', hpoints, -⟩ := hmatch p hp hsettled
    rw [hmatches] at hx
    rw [List.mem_singleton.mp hx] at hs'
    obtain rfl : s = s' := Option.some.inj hs'
    exact hno hpoints
  constructor
  · have hplay : ((Trace.run (step parseInt) live corrected).map fun db =>
        ((db.predictions, db.competitionMatches), decide
          ((settled ⟨1, 0⟩ 10).pointsAwarded ≠
            some (earned parseInt db.rules cup ⟨0, 2⟩ (settled ⟨1, 0⟩ 10))))) =
        some (([settled ⟨1, 0⟩ 10], [final ⟨0, 2⟩]), true) := by decide
    obtain ⟨db, hrun, hout⟩ := Option.map_eq_some_iff.mp hplay
    obtain ⟨hrows, hno⟩ := Prod.mk.inj hout
    exact ⟨db, hrun, hstale db _ _ hrows (Option.some_ne_none 20) (of_decide_eq_true hno)⟩
  · have hplay : ((Trace.run (step parseInt) live edited).map fun db =>
        ((db.predictions, db.competitionMatches), decide
          ((settled ⟨0, 1⟩ 30).pointsAwarded ≠
            some (earned parseInt db.rules cup ⟨2, 0⟩ (settled ⟨0, 1⟩ 30))))) =
        some (([settled ⟨0, 1⟩ 30], [final ⟨2, 0⟩]), true) := by decide
    obtain ⟨db, hrun, hout⟩ := Option.map_eq_some_iff.mp hplay
    obtain ⟨hrows, hno⟩ := Prod.mk.inj hout
    exact ⟨db, hrun, hstale db _ _ hrows (Option.some_ne_none 20) (of_decide_eq_true hno)⟩

end Oddzilla.Competitions
