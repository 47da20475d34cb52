import Oddzilla.Api.BettorOdds

/-!
# No drift without a move

A leg whose published price and whose bettor's rows are the same at placement and
at the delay tick.  The api and the worker write the same text for its adjusted
price.  But the worker measures drift between the stored price, which is on the
ladder, and the adjusted price before the ladder: a bettor with rows is rejected
or re-priced without a move as soon as the step down to the rung exceeds the
tolerance (`no_drift_iff_snug`), which a tolerance of five percent rules out.
-/

namespace Oddzilla.Theorems

/-- A leg at placement and, unchanged, at the tick.  The columns have four and
seven decimals. -/
structure QuietLeg where
  marketId : MarketId
  outcomeId : OutcomeId
  published : ℚ
  probability : Option ℚ
  matchId : Nat
  tournamentId : Nat
  sportId : Nat
  outcomeActive : Bool
  marketStatus : Int
  published_grid : Decimal.OnGrid 4 published
  one_lt : 1 < published
  probability_grid : ∀ p, probability = some p → Decimal.OnGrid 7 p

namespace QuietLeg

variable (leg : QuietLeg)

def bp (rows : List AdjustmentRow) : Int :=
  (loadBettorAdjustment rows).resolve leg.matchId leg.tournamentId leg.sportId

/-- The row as the worker loads it. -/
def selection (betType : BetType) (rows : List AdjustmentRow) : DelaySelection where
  marketId := leg.marketId
  outcomeId := leg.outcomeId
  oddsAtPlacement :=
    Api.placedOdds betType rows leg.matchId leg.tournamentId leg.sportId leg.published
    leg.probability
  currentPublished := some leg.published
  outcomeActive := leg.outcomeActive
  marketStatus := leg.marketStatus
  matchId := leg.matchId
  tournamentId := leg.tournamentId
  sportId := leg.sportId
  probability := leg.probability
  boostRule := false
  published_grid := by
    intro raw h
    cases h
    exact leg.published_grid

/-- The market takes bets. -/
def IsOpen : Prop := leg.marketStatus = 1 ∧ leg.outcomeActive = true

/-- The adjusted price before the ladder. -/
def adjusted (rows : List AdjustmentRow) : ℚ :=
  applyBettorAdjustment leg.published leg.probability (leg.bp rows)

/-- The step from the adjusted price to its rung is within the tolerance. -/
def Snug (tol : ℚ) (betType : BetType) (rows : List AdjustmentRow) : Prop :=
  (betType = .single ∨ betType = .combo) → rows ≠ [] →
    |leg.adjusted rows - formatOddsTrim (leg.adjusted rows)| ≤ tol * formatOddsTrim (leg.adjusted rows)

end QuietLeg

/-- The worker's decision on a ticket of quiet legs. -/
def tickDecision (tol : ℚ) (p : PendingTicket) (rows : List AdjustmentRow) (legs : List QuietLeg) :
    EvalResult :=
  evaluate tol p (legs.map fun leg => leg.selection p.betType rows) (workerAdjustment p.betType rows)

/-- The ticket is not rejected for drift and no leg is re-priced. -/
def NoDrift (tol : ℚ) (p : PendingTicket) (rows : List AdjustmentRow) (legs : List QuietLeg) :
    Prop :=
  tickDecision tol p rows legs ≠ .reject "odds_drift_exceeded" ∧
    ∀ payout updates, tickDecision tol p rows legs ≠ .acceptWithUpdatedOdds payout updates

/-! ## The two adjustments -/

theorem adjustedOdds_eq {raw : ℚ} {probability : Option ℚ} {bp : Int} (hraw : 0 < raw)
    (hbp : bp ≠ 0) :
    Api.adjustedOdds raw probability bp = applyBettorAdjustment raw probability bp := by
  unfold Api.adjustedOdds applyBettorAdjustment adjustedOddsFloor
  rw [if_neg hbp, if_neg (not_le.mpr hraw)]
  have hmax : ∀ c : ℚ, (if c < 1001 / 1000 then 1001 / 1000 else c) = max c (1001 / 1000) := by
    intro c
    split
    · next h => rw [max_eq_right h.le]
    · next h => rw [max_eq_left (not_lt.mp h)]
  cases probability with
  | none => exact hmax _
  | some p =>
    simp only
    rw [hmax]
    congr 1
    by_cases hp : 0 < p ∧ p < 1
    · by_cases hcap : 1 / p < raw * (1 + bp / 10000)
      · rw [if_pos ⟨hp.1, hp.2, hcap⟩, if_pos hp, min_eq_right hcap.le]
      · rw [if_neg fun h => hcap h.2.2, if_pos hp, min_eq_left (not_lt.mp hcap)]
    · rw [if_neg fun h => hp ⟨h.1, h.2.1⟩, if_neg hp]

/-- The api writes the adjusted price of the worker. -/
theorem apiText_eq {raw : ℚ} {probability : Option ℚ} {bp : Int} (hraw : 0 < raw) :
    Api.applyBettorAdjustment raw probability bp =
      formatOddsTrimNum (applyBettorAdjustment raw probability bp) := by
  unfold Api.applyBettorAdjustment
  by_cases hbp : bp = 0
  · rw [if_pos (.inr hbp), applyBettorAdjustment, if_pos hbp]
  · rw [if_neg (not_or.mpr ⟨not_le.mpr hraw, hbp⟩), adjustedOdds_eq hraw hbp]

/-! ## Adjusted prices are clear of the nudges -/

theorem steps_le {S : ℤ} (h : S ∈ steps) : S ≤ 50000 := by
  unfold steps at h
  fin_cases h <;> decide

theorem steps_dvd {S : ℤ} (h : S ∈ steps) : S ∣ 10 ^ 11 := by
  unfold steps at h
  fin_cases h <;> decide

theorem steps_ge {S : ℤ} (h : S ∈ steps) : 100 ≤ S := by
  unfold steps at h
  fin_cases h <;> decide

theorem clear_of_grid (N : ℤ) : Clear (N / 10 ^ 4) := by
  intro S hS q hlt
  have hSq : (S : ℚ) ≤ 50000 := by exact_mod_cast steps_le hS
  rw [div_lt_iff₀ (by norm_num)] at hlt
  have hN : N < q * S * 10 ^ 4 := by exact_mod_cast hlt
  have hstep : (N : ℚ) + 1 ≤ (q * S : ℤ) * 10 ^ 4 := by exact_mod_cast hN
  have hdiv : (N : ℚ) / 10 ^ 4 ≤ (q * S : ℤ) - 1 / 10 ^ 4 := by
    rw [div_le_iff₀ (by norm_num)]
    linarith
  constructor <;> linarith

/-- Fair prices of probabilities with seven decimals. -/
theorem clear_of_fair {P : ℤ} (hpos : 0 < P) (hlt : P < 10 ^ 7) : Clear (10 ^ 11 / P) := by
  intro S hS q hq
  have hPq : (0 : ℚ) < P := by exact_mod_cast hpos
  have hPle : (P : ℚ) ≤ 10 ^ 7 := by exact_mod_cast hlt.le
  have hSge : (100 : ℚ) ≤ S := by exact_mod_cast steps_ge hS
  rw [div_lt_iff₀ hPq] at hq
  have hz : 10 ^ 11 < q * S * P := by exact_mod_cast hq
  -- a multiple of the step above 10 ^ 11 is above it by a step
  have hgap : 10 ^ 11 + S ≤ q * S * P := by
    have hdvd : S ∣ q * S * P - 10 ^ 11 :=
      dvd_sub (Dvd.intro_left q rfl |>.mul_right P) (steps_dvd hS)
    have := Int.le_of_dvd (by omega) hdvd
    omega
  have hgapq : (10 : ℚ) ^ 11 + S ≤ (q * S : ℤ) * P := by exact_mod_cast hgap
  have hle : (10 : ℚ) ^ 11 / P ≤ (q * S : ℤ) - S / 10 ^ 7 := by
    rw [div_le_iff₀ hPq]
    have : (S : ℚ) / 10 ^ 7 * P ≤ S := by
      rw [div_mul_eq_mul_div, div_le_iff₀ (by norm_num)]
      exact mul_le_mul_of_nonneg_left hPle (by linarith)
    nlinarith
  constructor <;> linarith

namespace QuietLeg

variable {leg : QuietLeg} {rows : List AdjustmentRow} {tol : ℚ} {betType : BetType}

theorem one_le_adjusted : 1 ≤ leg.adjusted rows := by
  unfold adjusted applyBettorAdjustment
  have h1 := leg.one_lt
  split
  · exact h1.le
  · rw [if_neg (by linarith)]
    refine le_trans ?_ (le_max_right _ _)
    unfold adjustedOddsFloor
    norm_num

theorem clear_adjusted : Clear (leg.adjusted rows * 10000) := by
  obtain ⟨u, hu⟩ := leg.published_grid
  have h1 := leg.one_lt
  -- every value the adjustment can return keeps clear of the rounding's ties
  have hraw : Clear (leg.published * 10000) := by
    rw [hu, show (u : ℚ) / 10 ^ 4 * 10000 = u by norm_num]
    exact clear_int u
  have hfloor : Clear (adjustedOddsFloor * 10000) := by
    have := clear_int 10010
    unfold adjustedOddsFloor
    rwa [show (1001 / 1000 : ℚ) * 10000 = (10010 : ℤ) by norm_num]
  have hmul : Clear (leg.published * (1 + leg.bp rows / 10000) * 10000) := by
    have := clear_of_grid (u * (10000 + leg.bp rows))
    rw [hu]
    convert this using 1
    push_cast
    ring
  have hmax : ∀ c : ℚ, Clear (c * 10000) → Clear (max c adjustedOddsFloor * 10000) := by
    intro c hc
    rcases max_choice c adjustedOddsFloor with h | h
    · rw [h]
      exact hc
    · rw [h]
      exact hfloor
  unfold adjusted applyBettorAdjustment
  split
  · exact hraw
  · rw [if_neg (by linarith)]
    refine hmax _ ?_
    cases hp : leg.probability with
    | none => exact hmul
    | some p =>
      simp only
      split
      · next hrange =>
        rcases min_choice (leg.published * (1 + leg.bp rows / 10000)) (1 / p) with h | h
        · rw [h]
          exact hmul
        · rw [h]
          obtain ⟨P, hP⟩ := leg.probability_grid p hp
          have hP0 : 0 < P := by
            have := hrange.1
            rw [hP, lt_div_iff₀ (by norm_num)] at this
            exact_mod_cast (by linarith : (0 : ℚ) < P)
          have hP1 : P < 10 ^ 7 := by
            have := hrange.2
            rw [hP, div_lt_iff₀ (by norm_num)] at this
            exact_mod_cast (by linarith : (P : ℚ) < 10 ^ 7)
          have hclear := clear_of_fair hP0 hP1
          rw [hP]
          convert hclear using 1
          field_simp
          ring
      · exact hmul

/-- The units of the adjusted price, on the ladder. -/
def rung (leg : QuietLeg) (rows : List AdjustmentRow) : ℤ :=
  ladderUnits ⌊leg.adjusted rows * 10000 + 1 / 10 ^ 6⌋

theorem units_ge : 10000 ≤ ⌊leg.adjusted rows * 10000 + 1 / 10 ^ 6⌋ := by
  have h := @one_le_adjusted leg rows
  rw [Int.le_floor]
  push_cast
  linarith

theorem rung_ge : 10000 ≤ leg.rung rows := le_ladderUnits units_ge

theorem formatOddsTrim_adjusted : formatOddsTrim (leg.adjusted rows) = leg.rung rows / 10000 := by
  have h := @units_ge leg rows
  unfold formatOddsTrim
  simp only
  rw [if_neg (by omega)]
  rfl

/-- The api and the worker write the same text. -/
theorem sameText :
    formatOddsTrimNum (leg.adjusted rows) = formatOddsTrimText (leg.adjusted rows) := by
  have hpos : 0 < leg.adjusted rows * 10000 := by
    have := @one_le_adjusted leg rows
    linarith
  have hquote := (@clear_adjusted leg rows).quoteOnLadder_eq hpos
  rw [mul_div_cancel_right₀ _ (by norm_num : (10000 : ℚ) ≠ 0)] at hquote
  unfold formatOddsTrimNum formatOddsTrimText
  have hunits : ⌊quoteOnLadder (leg.adjusted rows) * 10000 + 1 / 10 ^ 6⌋ = leg.rung rows := by
    rw [hquote, div_mul_cancel₀ _ (by norm_num : (10000 : ℚ) ≠ 0), Int.floor_eq_iff]
    unfold rung
    constructor <;> linarith
  rw [hunits, renderTs_eq_renderGo]
  rfl

theorem value_text : (formatOddsTrimNum (leg.adjusted rows)).value = leg.rung rows / 10000 := by
  have h := @rung_ge leg rows
  rw [sameText, formatOddsTrimText, value_renderGo]
  show ((leg.rung rows).toNat : ℚ) / 10000 = _
  have hnat : ((leg.rung rows).toNat : ℚ) = leg.rung rows := by
    exact_mod_cast Int.toNat_of_nonneg (by omega : 0 ≤ leg.rung rows)
  rw [hnat]

/-! ## What is stored -/

theorem placed_plain (h : ¬ (betType = .single ∨ betType = .combo) ∨ rows = []) :
    (leg.selection betType rows).oddsAtPlacement = leg.published := by
  refine if_pos ?_
  rcases h with h | rfl
  · exact .inl (not_or.mp h)
  · exact .inr rfl

theorem placed_adjusted (hb : betType = .single ∨ betType = .combo) (hrows : rows ≠ []) :
    (leg.selection betType rows).oddsAtPlacement = leg.rung rows / 10000 := by
  have hempty : (Api.loadBettorAdjustmentCascade rows).empty = false := by
    have hfold : ∀ (rs : List AdjustmentRow) (c : Api.BettorAdjustmentCascade),
        (rs.foldl Api.BettorAdjustmentCascade.addRow c).empty = c.empty := by
      intro rs
      induction rs with
      | nil => exact fun _ => rfl
      | cons r rs ih =>
        intro c
        rw [List.foldl_cons, ih]
        unfold Api.BettorAdjustmentCascade.addRow
        cases r.scope <;> rfl
    unfold Api.loadBettorAdjustmentCascade
    rw [if_neg (by simpa using hrows)]
    exact hfold rows _
  have hcond : ¬ (betType ≠ .single ∧ betType ≠ .combo ∨
      (Api.loadBettorAdjustmentCascade rows).empty = true) := by
    rw [hempty]
    rcases hb with rfl | rfl <;> decide
  have hone := leg.one_lt
  have hvalue : (Api.applyBettorAdjustment leg.published leg.probability
      (Api.resolveBettorAdjustmentBp (Api.loadBettorAdjustmentCascade rows) leg.matchId
        leg.tournamentId leg.sportId)).value = leg.rung rows / 10000 := by
    rw [resolve_eq, apiText_eq (by linarith)]
    exact value_text
  have hrung : (10000 : ℚ) ≤ leg.rung rows := by exact_mod_cast @rung_ge leg rows
  show Api.placedOdds .. = _
  unfold Api.placedOdds
  rw [if_neg hcond]
  simp only
  rw [hvalue, if_pos (by positivity)]

theorem placed_pos : 0 < (leg.selection betType rows).oddsAtPlacement := by
  have hone := leg.one_lt
  by_cases h : ¬ (betType = .single ∨ betType = .combo) ∨ rows = []
  · rw [placed_plain h]
    linarith
  · rw [not_or, not_not] at h
    have hrung : (10000 : ℚ) ≤ leg.rung rows := by exact_mod_cast @rung_ge leg rows
    rw [placed_adjusted h.1 h.2]
    positivity

/-- The price the worker compares with. -/
theorem current_eq : (currentPrice (workerAdjustment betType rows) (leg.selection betType rows)
    leg.published).1 =
      if betType = .single ∨ betType = .combo then leg.adjusted rows else leg.published := by
  unfold currentPrice workerAdjustment
  simp only
  split
  · show (if leg.bp rows = 0 then _ else _ : ℚ × ℚ).1 = _
    unfold adjusted
    split
    · next hbp => rw [applyBettorAdjustment, if_pos hbp]
    · rfl
  · rfl

theorem adjusted_nil : leg.adjusted [] = leg.published := by
  show applyBettorAdjustment leg.published leg.probability 0 = leg.published
  rw [applyBettorAdjustment, if_pos rfl]

/-- The comparison finds drift exactly when the leg is not snug. -/
theorem drift_iff (htol : 0 ≤ tol) :
    tol < |(currentPrice (workerAdjustment betType rows) (leg.selection betType rows) leg.published).1 -
        (leg.selection betType rows).oddsAtPlacement| /
          (leg.selection betType rows).oddsAtPlacement ↔
      ¬ leg.Snug tol betType rows := by
  rw [lt_div_iff₀ placed_pos, current_eq]
  unfold Snug
  by_cases hb : betType = .single ∨ betType = .combo
  · by_cases hrows : rows = []
    · rw [if_pos hb, placed_plain (.inr hrows), hrows, adjusted_nil]
      have hone := leg.one_lt
      simp only [sub_self, abs_zero, ne_eq, not_true_eq_false, false_implies, implies_true, iff_false,
        not_lt]
      positivity
    · rw [if_pos hb, placed_adjusted hb hrows, formatOddsTrim_adjusted]
      simp only [hb, true_implies, ne_eq, hrows, not_false_eq_true, not_le]
  · rw [if_neg hb, placed_plain (.inl hb)]
    have hone := leg.one_lt
    simp only [sub_self, abs_zero, hb, false_implies, not_true_eq_false, iff_false, not_lt]
    positivity

end QuietLeg

/-! ## The ticket -/

section

variable {tol : ℚ} {p : PendingTicket} {rows : List AdjustmentRow} {leg : QuietLeg}

/-- The worker's flag for the leg. -/
def looseLeg (tol : ℚ) (p : PendingTicket) (rows : List AdjustmentRow) (leg : QuietLeg) : Bool :=
  !p.skipDrift && decide (tol <
    |(currentPrice (workerAdjustment p.betType rows) (leg.selection p.betType rows) leg.published).1 -
      (leg.selection p.betType rows).oddsAtPlacement| / (leg.selection p.betType rows).oddsAtPlacement)

theorem looseLeg_iff (htol : 0 ≤ tol) :
    looseLeg tol p rows leg = true ↔ ¬ leg.Snug tol p.betType rows := by
  unfold looseLeg
  rw [Bool.and_eq_true, decide_eq_true_eq, QuietLeg.drift_iff htol]
  refine ⟨fun h => h.2, fun h => ⟨?_, h⟩⟩
  -- a leg is loose on singles and combos only
  unfold QuietLeg.Snug at h
  rw [Classical.not_imp] at h
  unfold PendingTicket.skipDrift
  rcases h.1 with hb | hb <;> rw [hb] <;> rfl

theorem checkLeg_closed (h : ¬ leg.IsOpen) : ∃ reason, reason ≠ "odds_drift_exceeded" ∧
    checkLeg tol p (workerAdjustment p.betType rows)
      (leg.selection p.betType rows) = .error reason := by
  unfold checkLeg
  by_cases hs : leg.marketStatus = 1
  · have ha : ¬ (leg.selection p.betType rows).outcomeActive = true := fun ha => h ⟨hs, ha⟩
    have hs' : (leg.selection p.betType rows).marketStatus = 1 := hs
    refine ⟨"outcome_inactive", by decide, ?_⟩
    rw [if_neg (not_not.mpr hs'), if_pos ha]
  · exact ⟨"market_suspended", by decide, if_pos hs⟩

theorem checkLeg_open (h : leg.IsOpen) :
    checkLeg tol p (workerAdjustment p.betType rows) (leg.selection p.betType rows) =
      if looseLeg tol p rows leg = true ∧ ¬ p.canReprice = true then .error "odds_drift_exceeded"
      else .ok ⟨leg.marketId, leg.outcomeId, (leg.selection p.betType rows).oddsAtPlacement,
        (currentPrice (workerAdjustment p.betType rows) (leg.selection p.betType rows) leg.published).1,
        (currentPrice (workerAdjustment p.betType rows) (leg.selection p.betType rows) leg.published).2,
        looseLeg tol p rows leg⟩ := by
  have hone := leg.one_lt
  have hplaced := @QuietLeg.placed_pos leg rows p.betType
  have hs : (leg.selection p.betType rows).marketStatus = 1 := h.1
  have ha : (leg.selection p.betType rows).outcomeActive = true := h.2
  unfold checkLeg
  rw [if_neg (not_not.mpr hs), if_neg (not_not.mpr ha)]
  show (if (leg.selection p.betType rows).oddsAtPlacement ≤ 0 ∨ leg.published ≤ 0 then _ else _) = _
  rw [if_neg (not_or.mpr ⟨not_le.mpr hplaced, by linarith⟩)]
  have hflag : (!p.skipDrift && !(leg.selection p.betType rows).boostRule && decide (tol <
      |(currentPrice (workerAdjustment p.betType rows) (leg.selection p.betType rows) leg.published).1 -
        (leg.selection p.betType rows).oddsAtPlacement| / (leg.selection p.betType rows).oddsAtPlacement)) =
      looseLeg tol p rows leg := by
    unfold looseLeg
    rw [show (leg.selection p.betType rows).boostRule = false from rfl, Bool.not_false,
      Bool.and_true]
  simp only [hflag]
  rfl

/-- Snug legs pass the checks or stop for another reason. -/
theorem checks_snug (htol : 0 ≤ tol) {legs : List QuietLeg}
    (h : ∀ leg ∈ legs, leg.Snug tol p.betType rows) :
    (∃ reason, reason ≠ "odds_drift_exceeded" ∧
      (legs.map fun leg => leg.selection p.betType rows).mapM
        (checkLeg tol p (workerAdjustment p.betType rows)) = .error reason) ∨
    ∃ checks, (legs.map fun leg => leg.selection p.betType rows).mapM
        (checkLeg tol p (workerAdjustment p.betType rows)) = .ok checks ∧
      checks.any (·.drifted) = false := by
  induction legs with
  | nil => exact .inr ⟨[], rfl, rfl⟩
  | cons leg legs ih =>
    rw [List.map_cons, List.mapM_cons]
    have hsnug := h leg (List.mem_cons_self ..)
    by_cases hopen : leg.IsOpen
    · have hflag : looseLeg tol p rows leg = false := by
        rw [Bool.eq_false_iff, ne_eq, looseLeg_iff htol, not_not]
        exact hsnug
      rw [checkLeg_open hopen, hflag, if_neg fun hc => Bool.false_ne_true hc.1]
      rcases ih fun l hl =>
        h l (List.mem_cons_of_mem _ hl) with ⟨reason, hne, herr⟩ | ⟨checks, hok, hany⟩
      · exact .inl ⟨reason, hne, by rw [herr]; rfl⟩
      · refine .inr ⟨_, by rw [hok]; rfl, ?_⟩
        rw [List.any_cons, hany]
        rfl
    · obtain ⟨reason, hne, herr⟩ := @checkLeg_closed tol p rows leg hopen
      exact .inl ⟨reason, hne, by rw [herr]; rfl⟩

/-- Open legs, one of them loose: the first loose one stops the ticket, or all
pass and one has drifted. -/
theorem checks_loose (htol : 0 ≤ tol) {legs : List QuietLeg} (hopen : ∀ leg ∈ legs, leg.IsOpen)
    (h : ∃ leg ∈ legs, ¬ leg.Snug tol p.betType rows) :
    (legs.map fun leg => leg.selection p.betType rows).mapM
        (checkLeg tol p (workerAdjustment p.betType rows)) = .error "odds_drift_exceeded" ∨
    ∃ checks, (legs.map fun leg => leg.selection p.betType rows).mapM
        (checkLeg tol p (workerAdjustment p.betType rows)) = .ok checks ∧
      checks.any (·.drifted) = true := by
  have hany : ∃ leg ∈ legs, looseLeg tol p rows leg = true := by
    obtain ⟨leg, hmem, hloose⟩ := h
    exact ⟨leg, hmem, (looseLeg_iff htol).mpr hloose⟩
  clear h
  have hgen : (legs.map fun leg => leg.selection p.betType rows).mapM
        (checkLeg tol p (workerAdjustment p.betType rows)) = .error "odds_drift_exceeded" ∨
    ∃ checks, (legs.map fun leg => leg.selection p.betType rows).mapM
        (checkLeg tol p (workerAdjustment p.betType rows)) = .ok checks ∧
      ((∃ leg ∈ legs, looseLeg tol p rows leg = true) → checks.any (·.drifted) = true) := by
    clear hany
    induction legs with
    | nil => exact .inr ⟨[], rfl, fun ⟨_, hmem, _⟩ => (List.not_mem_nil hmem).elim⟩
    | cons leg legs ih =>
      rw [List.map_cons, List.mapM_cons, checkLeg_open (hopen leg (List.mem_cons_self ..))]
      split
      · exact .inl rfl
      · rcases ih fun l hl => hopen l (List.mem_cons_of_mem _ hl) with herr | ⟨checks, hok, hdrift⟩
        · exact .inl (by rw [herr]; rfl)
        · refine .inr ⟨_, by rw [hok]; rfl, fun hex => ?_⟩
          obtain ⟨l, hl, hloose⟩ := hex
          rw [List.any_cons, Bool.or_eq_true]
          rcases List.mem_cons.mp hl with rfl | hl
          · exact .inl hloose
          · exact .inr (hdrift ⟨l, hl, hloose⟩)
  rcases hgen with herr | ⟨checks, hok, hdrift⟩
  · exact .inl herr
  · exact .inr ⟨checks, hok, hdrift hany⟩

end

/-- No step of the ladder is more than a twentieth of the price it starts from, so
the default tolerance of five percent covers every step down to a rung. -/
theorem snug_of_five_percent {tol : ℚ} (htol : 1 / 20 ≤ tol) (leg : QuietLeg) (betType : BetType)
    (rows : List AdjustmentRow) : leg.Snug tol betType rows := by
  intro _ _
  rw [QuietLeg.formatOddsTrim_adjusted]
  have hge := @QuietLeg.rung_ge leg rows
  have hgeq : (10000 : ℚ) ≤ leg.rung rows := by exact_mod_cast hge
  have hclose :
    20 * (⌊leg.adjusted rows * 10000 + 1 / 10 ^ 6⌋ + 1 - leg.rung rows) ≤ leg.rung rows := by
    unfold QuietLeg.rung
    rw [ladderUnits_eq_snap]
    exact Ladder.snap_close unitBands_fits (by norm_num)
      (by unfold unitBands; simp only [Ladder.Fine]; decide) QuietLeg.units_ge
  have hcloseq : 20 * ((⌊leg.adjusted rows * 10000 + 1 / 10 ^ 6⌋ : ℚ) + 1 - leg.rung rows) ≤
      leg.rung rows := by exact_mod_cast hclose
  have hle : (leg.rung rows : ℚ) ≤ ⌊leg.adjusted rows * 10000 + 1 / 10 ^ 6⌋ := by
    exact_mod_cast ladderUnits_le _
  have hfloor := Int.floor_le (leg.adjusted rows * 10000 + 1 / 10 ^ 6)
  have hlt := Int.lt_floor_add_one (leg.adjusted rows * 10000 + 1 / 10 ^ 6)
  have hbound : |leg.adjusted rows - leg.rung rows / 10000| ≤ 1 / 20 * (leg.rung rows / 10000) := by
    rw [abs_le]
    constructor <;> linarith
  exact hbound.trans (mul_le_mul_of_nonneg_right htol (by positivity))

/-- For every tolerance from 0 on, every ticket, every list of rows and every
list of unmoved legs: the api and the worker write the same text for the adjusted
price of each leg; if every leg is snug the ticket is neither rejected for drift
nor re-priced; and on open legs only then. -/
theorem no_drift_iff_snug (tol : ℚ) (htol : 0 ≤ tol) (p : PendingTicket) (rows : List AdjustmentRow)
    (legs : List QuietLeg) :
    (∀ leg ∈ legs, Api.applyBettorAdjustment leg.published leg.probability
        (Api.resolveBettorAdjustmentBp (Api.loadBettorAdjustmentCascade rows) leg.matchId
          leg.tournamentId leg.sportId) =
      formatOddsTrimText (applyBettorAdjustment leg.published leg.probability
        ((loadBettorAdjustment rows).resolve leg.matchId leg.tournamentId leg.sportId))) ∧
    ((∀ leg ∈ legs, leg.Snug tol p.betType rows) → NoDrift tol p rows legs) ∧
    ((∀ leg ∈ legs, leg.IsOpen) → NoDrift tol p rows legs →
      ∀ leg ∈ legs, leg.Snug tol p.betType rows) := by
  refine ⟨fun leg _ => ?_, fun h => ?_, fun hopen h leg hleg => ?_⟩
  · have hone := leg.one_lt
    rw [resolve_eq, apiText_eq (by linarith)]
    exact QuietLeg.sameText
  · have hdecision : tickDecision tol p rows legs ≠ .reject "odds_drift_exceeded" ∧
        ∀ payout updates, tickDecision tol p rows legs ≠ .acceptWithUpdatedOdds payout updates := by
      unfold tickDecision evaluate
      split
      · exact ⟨by decide, fun _ _ => by simp⟩
      · rcases checks_snug htol h with ⟨reason, hne, herr⟩ | ⟨checks, hok, hany⟩
        · rw [herr]
          exact ⟨fun he => hne (EvalResult.reject.inj he), fun _ _ => by simp⟩
        · rw [hok]
          simp only [hany, Bool.false_eq_true, not_false_eq_true, if_true]
          exact ⟨by simp, fun _ _ => by simp⟩
    exact hdecision
  · by_contra hloose
    obtain ⟨hreject, hreprice⟩ := h
    unfold tickDecision evaluate at hreject hreprice
    have hne : (legs.map fun leg => leg.selection p.betType rows) ≠ [] := by
      intro hnil
      rw [List.map_eq_nil_iff] at hnil
      rw [hnil] at hleg
      cases hleg
    rw [if_neg hne] at hreject hreprice
    rcases checks_loose htol hopen ⟨leg, hleg, hloose⟩ with herr | ⟨checks, hok, hany⟩
    · rw [herr] at hreject
      exact hreject rfl
    · rw [hok] at hreject hreprice
      simp only [hany, not_true_eq_false, if_false] at hreject hreprice
      split at hreject
      · exact hreject rfl
      · next hpay =>
        rw [if_neg hpay] at hreprice
        exact hreprice _ _ rfl

/-! ## A price in the tail -/

/-- A single on a published 100.00, for a bettor with two percent more. -/
def tailLeg : QuietLeg where
  marketId := 1
  outcomeId := "1"
  published := 100
  probability := none
  matchId := 1
  tournamentId := 1
  sportId := 1
  outcomeActive := true
  marketStatus := 1
  published_grid := ⟨1000000, by norm_num⟩
  one_lt := by norm_num
  probability_grid := by
    intro p hp
    cases hp

def tailRows : List AdjustmentRow := [⟨.global, none, none, none, 200, by decide⟩]

def tailTicket : PendingTicket := ⟨.single, 100, false, none⟩

theorem no_drift_iff_snug_tail : NoDrift (1 / 20) tailTicket tailRows [tailLeg] := by
  obtain ⟨-, hsnug, -⟩ := no_drift_iff_snug (1 / 20) (by norm_num) tailTicket tailRows [tailLeg]
  exact hsnug fun leg _ => snug_of_five_percent (le_refl _) leg _ _

/-- The stored price is 100, the adjusted price 102: with a tolerance of one
percent the ticket is rejected for drift although nothing has moved. -/
theorem unmoved_ticket_rejected :
    tailLeg.IsOpen ∧ (tailLeg.selection .single tailRows).oddsAtPlacement = 100 ∧
      tickDecision (1 / 100) tailTicket tailRows [tailLeg] = .reject "odds_drift_exceeded" := by
  refine ⟨⟨rfl, rfl⟩, ?_, ?_⟩
  · decide +kernel
  · decide +kernel

end Oddzilla.Theorems
