import Oddzilla.Logic.Boosts

/-!
# Displayed and accepted boosts

The cards of the lists, the match page and the placement each resolve the rules of a market
themselves.  A placement looks at the rule that the bet names and not at the ones before it
in the cascade, prices a selection without the others of its kind, and the match page knows
one rule for a team only; so they agree in general only where at most one of the rules has
a say, and this module says exactly where.
-/

namespace Oddzilla.Boost

/-- A market on a card and its viewer.  The page's batch holds the match and the market. -/
structure Card where
  config : Config
  nowMs : Int
  riskScore : ℚ
  ctx : MatchBoostContext
  market : Market
  contexts : List MatchBoostContext
  ctx_mem : ctx ∈ contexts
  marketIds : List MarketId
  market_mem : market.id ∈ marketIds
  /-- all markets of the match -/
  matchMarketIds : List MarketId
  matchMarket_mem : market.id ∈ matchMarketIds

namespace Card

variable (v : Card) {r r' : BoostRule} {o : String} {id : RuleId} {price : ℚ}
  {sel : List (String × BoostRule)} {args : BoostClaim}

def listResolution : Resolution :=
  resolve (loadBoostRules v.config v.nowMs v.contexts v.marketIds v.riskScore) v.ctx v.market.id
    v.market.providerMarketId v.market.pricedIds

/-- The cell of a card. -/
def displayed (o : String) : Option (RuleId × ℚ) :=
  priceAt (quoteBoostedMarket v.listResolution v.market.priced) o

def validate (args : BoostClaim) : Except String (ℚ × RuleId) :=
  validateCustomBoostForBet v.config v.nowMs v.ctx v.market v.riskScore args

def pageResolution : Resolution :=
  Boost.pageResolution (boostedOddsRoute
    (loadBoostRules v.config v.nowMs [v.ctx] v.matchMarketIds v.riskScore) v.ctx) v.market

/-- What is displayed is accepted, nothing else is, and the match page has the same rule in
every cell. -/
structure Agrees : Prop where
  accepted : ∀ o id price, v.displayed o = some (id, price) →
    v.validate ⟨id, o, price⟩ = .ok (price, id)
  refused : ∀ args price id, v.validate args = .ok (price, id) →
    v.displayed args.outcomeId = some (id, price) ∧ id = args.ruleId
  page : ∀ o ∈ v.market.pricedIds, v.pageResolution.ruleAt o = v.listResolution.ruleAt o

/-! ## The rules of the market -/

def eligible : List BoostRule := eligibleRules v.config v.nowMs v.riskScore

/-- Outcome rules. -/
def explicit : List (String × BoostRule) := selectionsOn v.eligible v.market.id

/-- `team_only` rules, where the market has an outcome for the team. -/
def teamOnly : List (String × BoostRule) :=
  teamOnlyCells v.eligible v.ctx v.market.id v.market.providerMarketId v.market.pricedIds

def marketWide : Option BoostRule := marketWideRule v.eligible v.ctx v.market.id

/-- The price of a selection among others. -/
def quoteSelection (sel : List (String × BoostRule)) (o : String) : Option (RuleId × ℚ) :=
  priceAt (quoteBoostedMarket ⟨none, sel⟩ v.market.priced) o

/-- The price of a cell if the rule prices the market. -/
def quoteWide (r : BoostRule) (o : String) : Option (RuleId × ℚ) :=
  priceAt (quoteBoostedMarket ⟨some r, []⟩ v.market.priced) o

/-- The rule prices whole markets, this one among them. -/
def IsWide (r : BoostRule) : Prop :=
  r ∈ v.eligible ∧ isOutcomeRule r = false ∧ isTeamOnlyRule r = false ∧
    ∃ o, covers v.ctx v.market.id o r.scope = true

theorem eligible_keyed : Keyed v.eligible := Boost.eligible_keyed

theorem listResolution_eq : v.listResolution = ⟨v.marketWide, v.explicit ++ v.teamOnly⟩ :=
  resolve_load v.ctx_mem v.market_mem

/-! ## Quotes -/

theorem quote_selections {mw : Option BoostRule} (h : sel ≠ []) :
    quoteBoostedMarket ⟨mw, sel⟩ v.market.priced =
      quoteBoostedMarket ⟨none, sel⟩ v.market.priced := by
  unfold quoteBoostedMarket quoteMarketBoost
  have hmap : sel.map (fun kv => (kv.1, kv.2.toQuoteRule)) ≠ [] := fun hnil =>
    h (List.map_eq_nil_iff.mp hnil)
  rw [if_pos hmap, if_pos hmap]

theorem displayed_selections (h : v.explicit ++ v.teamOnly ≠ []) :
    v.displayed o = v.quoteSelection (v.explicit ++ v.teamOnly) o := by
  unfold displayed
  rw [listResolution_eq, quote_selections v h]
  rfl

theorem displayed_wide (h : v.explicit ++ v.teamOnly = []) :
    v.displayed o = v.marketWide.bind fun r => v.quoteWide r o := by
  unfold displayed
  rw [listResolution_eq, h]
  cases v.marketWide <;> rfl

/-- A cell of a selection carries the rule of the selection. -/
theorem quoteSelection_rule (h : v.quoteSelection sel o = some (id, price)) :
    ∃ r, mapGet sel o = some r ∧ r.id = id := by
  unfold quoteSelection priceAt quoteBoostedMarket quoteMarketBoost at h
  obtain ⟨cell, hfind, hcell⟩ := Option.map_eq_some_iff.mp h
  have hkey := List.find?_some hfind
  have hmem := List.mem_of_find?_eq_some hfind
  split at hmem
  · unfold quoteSelections at hmem
    dsimp only at hmem
    split at hmem
    · cases hmem
    · obtain ⟨⟨out, delta, odds⟩, -, hrow⟩ := List.mem_filterMap.mp hmem
      dsimp only at hrow
      split at hrow
      · cases hrow
      · next rule hget =>
        split at hrow
        · cases hrow
        · cases hrow
          rw [mapGet_map] at hget
          obtain ⟨r, hr, rfl⟩ := Option.map_eq_some_iff.mp hget
          have hout : out.outcomeId = o := of_decide_eq_true hkey
          rw [hout] at hr
          exact ⟨r, hr, (Prod.mk.inj hcell).1⟩
  · cases hmem

theorem quoteWide_rule (h : v.quoteWide r o = some (id, price)) : id = r.id := by
  unfold quoteWide priceAt quoteBoostedMarket quoteMarketBoost at h
  obtain ⟨cell, hfind, hcell⟩ := Option.map_eq_some_iff.mp h
  have hmem := List.mem_of_find?_eq_some hfind
  replace hmem : cell ∈ quoteMarketWide v.market.priced r.toQuoteRule := hmem
  unfold quoteMarketWide at hmem
  split at hmem
  · cases hmem
  · dsimp only at hmem
    split at hmem
    · cases hmem
    · split at hmem
      · cases hmem
      · obtain ⟨i, hi, hcell'⟩ := List.mem_iff_getElem.mp hmem
        rw [List.getElem_zipWith] at hcell'
        rw [← hcell'] at hcell
        exact (Prod.mk.inj hcell).1.symm

/-! ## Placement -/

/-- The rule prices the cell for a bet, whatever other rules there are. -/
def Lands (r : BoostRule) (o : String) : Prop :=
  if isOutcomeRule r = true then (o, r) ∈ v.explicit
  else if isTeamOnlyRule r = true then (o, r) ∈ v.teamOnly
  else r ∈ v.eligible ∧ covers v.ctx v.market.id o r.scope = true ∧ v.explicit = []

/-- The price it has there. -/
def offer (r : BoostRule) (o : String) : Option (RuleId × ℚ) :=
  if isOutcomeRule r = true then v.quoteSelection v.explicit o
  else if isTeamOnlyRule r = true then v.quoteSelection [(o, r)] o
  else v.quoteWide r o

theorem find_rule : v.config.rules.find? (fun r => r.id = id) = some r ↔
    r ∈ v.config.rules ∧ r.id = id := by
  constructor
  · intro h
    have hid := List.find?_some h
    exact ⟨List.mem_of_find?_eq_some h, of_decide_eq_true hid⟩
  · rintro ⟨hr, hid⟩
    have hsome : (v.config.rules.find? fun r => r.id = id).isSome = true :=
      List.find?_isSome.mpr ⟨r, hr, decide_eq_true hid⟩
    obtain ⟨r', hr'⟩ := Option.isSome_iff_exists.mp hsome
    have hid' := List.find?_some hr'
    have hsymm : Std.Symm fun r r' : BoostRule => r.id ≠ r'.id := ⟨fun _ _ h => h.symm⟩
    rw [hr']
    by_contra hne
    exact v.config.ids.forall (List.mem_of_find?_eq_some hr') hr (fun h => hne (congrArg some h))
      ((of_decide_eq_true hid').trans hid.symm)

theorem outcome_not_teamOnly (h : isOutcomeRule r = true) : isTeamOnlyRule r = false := by
  unfold isOutcomeRule at h
  unfold isTeamOnlyRule
  split at h
  · next m o' hscope => rw [hscope]
  · cases h

theorem mem_explicit : (o, r) ∈ v.explicit ↔
    r ∈ v.eligible ∧ r.scope = .outcome v.market.id o :=
  mem_selectionsOn

theorem mem_teamOnly : (o, r) ∈ v.teamOnly ↔
    isTeamShapedMarket v.market.providerMarketId v.market.pricedIds = true ∧ r ∈ v.eligible ∧
      teamOutcomeForRule v.ctx r = some o ∧ mapGet v.explicit o = none :=
  v.eligible_keyed.mem_teamOnlyCells

/-- A rule that lands is eligible and covers the cell. -/
theorem Lands.covers (h : v.Lands r o) :
    r ∈ v.eligible ∧ Boost.covers v.ctx v.market.id o r.scope = true := by
  unfold Lands at h
  split at h
  · obtain ⟨hr, hscope⟩ := (mem_explicit v).mp h
    refine ⟨hr, ?_⟩
    rw [hscope]
    simp [Boost.covers]
  · split at h
    · obtain ⟨-, hr, hout, -⟩ := (mem_teamOnly v).mp h
      obtain ⟨c, -, hscope, hcase⟩ := teamOutcome_scope hout
      refine ⟨hr, ?_⟩
      rw [hscope]
      rcases hcase with ⟨hhome, -⟩ | ⟨-, haway, -⟩
      · simp [Boost.covers, hhome]
      · simp [Boost.covers, haway]
    · exact ⟨h.1, h.2.1⟩

/-- The checks of a placement, one after the other. -/
theorem lands_iff (hr : r ∈ v.eligible) : v.Lands r o ↔
    Boost.covers v.ctx v.market.id o r.scope = true ∧
    ¬ (isTeamOnlyRule r = true ∧
      ¬ (isTeamShapedMarket v.market.providerMarketId v.market.pricedIds = true ∧
        teamOutcomeForRule v.ctx r = some o)) ∧
    ¬ (¬ (isOutcomeRule r || isTeamOnlyRule r) = true ∧ v.explicit ≠ []) ∧
    ¬ (isTeamOnlyRule r = true ∧ (mapGet v.explicit o).isSome = true) := by
  constructor
  · intro h
    refine ⟨(Lands.covers v h).2, ?_⟩
    unfold Lands at h
    split at h
    · next hout =>
      rw [outcome_not_teamOnly hout, hout]
      simp
    · next hout =>
      rw [Bool.not_eq_true] at hout
      split at h
      · next hteam =>
        obtain ⟨hshape, -, hteamOut, hfree⟩ := (mem_teamOnly v).mp h
        rw [hteam, hout, hfree]
        simp [hshape, hteamOut]
      · next hteam =>
        rw [Bool.not_eq_true] at hteam
        rw [hteam, hout, h.2.2]
        simp
  · rintro ⟨hcovers, hteam, hwide, hfree⟩
    unfold Lands
    split
    · next hout =>
      refine (mem_explicit v).mpr ⟨hr, ?_⟩
      unfold isOutcomeRule at hout
      split at hout
      · next m o' hscope =>
        rw [hscope] at hcovers ⊢
        unfold Boost.covers at hcovers
        rw [Bool.and_eq_true, decide_eq_true_iff, decide_eq_true_iff] at hcovers
        rw [hcovers.1, hcovers.2]
      · cases hout
    · next hout =>
      split
      · next honly =>
        obtain ⟨hshape, hteamOut⟩ := not_not.mp fun hno => hteam ⟨honly, hno⟩
        refine (mem_teamOnly v).mpr ⟨hshape, hr, hteamOut, ?_⟩
        exact Option.not_isSome_iff_eq_none.mp fun hsome => hfree ⟨honly, hsome⟩
      · next honly =>
        refine ⟨hr, hcovers, ?_⟩
        by_contra hne
        refine hwide ⟨?_, hne⟩
        rw [Bool.not_eq_true] at hout honly
        rw [hout, honly]
        exact Bool.false_ne_true

theorem offer_eq : v.offer r args.outcomeId =
    priceAt (quoteBoostedMarket
      (if (isOutcomeRule r || isTeamOnlyRule r) = true then
        ⟨none, if isOutcomeRule r = true then v.explicit else [(args.outcomeId, r)]⟩
      else ⟨some r, []⟩) v.market.priced) args.outcomeId := by
  unfold offer quoteSelection quoteWide
  cases isOutcomeRule r <;> cases isTeamOnlyRule r <;> rfl

theorem validate_ok_iff : v.validate args = .ok (price, id) ↔
    id = args.ruleId ∧ ∃ r ∈ v.config.rules, r.id = args.ruleId ∧ v.Lands r args.outcomeId ∧
      v.offer r args.outcomeId = some (r.id, price) ∧
      drift args.quotedOdds price ≤ customBoostPlacementTolerance := by
  unfold validate validateCustomBoostForBet
  have hexplicit : selectionsOn (v.config.rules.filter fun r =>
      ruleWindowIsOpen v.nowMs r && passesRiskGate v.riskScore r) v.market.id = v.explicit := rfl
  rw [hexplicit]
  constructor
  · intro h
    split at h
    · cases h
    · -- one refusal after the other, in the order of the source
      next r hfind =>
      obtain ⟨hr, hid⟩ := (find_rule v).mp hfind
      split at h
      · cases h
      · next hopen =>
        split at h
        · cases h
        · next hgate =>
          split at h
          · cases h
          · next hcovers =>
            split at h
            · cases h
            · next hteam =>
              dsimp only at h
              split at h
              · cases h
              · next hwide =>
                split at h
                · cases h
                · next hfree =>
                  split at h
                  · cases h
                  · next ruleId auth hprice =>
                    split at h
                    · cases h
                    · next hsame =>
                      split at h
                      · cases h
                      · next hdrift =>
                        cases h
                        rw [← offer_eq] at hprice
                        have helig : r ∈ v.eligible :=
                          mem_eligible.mpr ⟨hr, not_not.mp hopen, not_not.mp hgate⟩
                        refine ⟨hid, r, hr, hid, ?_, ?_, not_lt.mp hdrift⟩
                        · exact (lands_iff v helig).mpr
                            ⟨not_not.mp hcovers, hteam, hwide, hfree⟩
                        · rw [hprice, not_not.mp hsame]
  · rintro ⟨rfl, r, hr, hid, hlands, hprice, hdrift⟩
    -- backwards none of the refusals applies
    have helig := (Lands.covers v hlands).1
    obtain ⟨-, hopen, hgate⟩ := mem_eligible.mp helig
    obtain ⟨hcovers, hteam, hwide, hfree⟩ := (lands_iff v helig).mp hlands
    rw [(find_rule v).mpr ⟨hr, hid⟩]
    dsimp only
    rw [if_neg (not_not.mpr hopen), if_neg (not_not.mpr hgate), if_neg (not_not.mpr hcovers),
      if_neg hteam, if_neg hwide, if_neg hfree, ← offer_eq, hprice]
    dsimp only
    rw [if_neg (not_not.mpr rfl), if_neg (not_lt.mpr hdrift), hid]

/-! ## Where a bet gets what the card shows -/

/-- No second rule has a say in the market's prices, and no selection moves another's. -/
structure Unrivalled : Prop where
  /-- Without outcome rules, no rule for whole markets moves a price here but the most
  specific one, and it only if no team has its own. -/
  wide : v.explicit = [] → ∀ r o, v.IsWide r → (v.quoteWide r o).isSome = true →
    v.teamOnly = [] ∧ v.marketWide = some r
  /-- Outcome rules get the price that they have without the teams' rules. -/
  explicit : ∀ o r, (o, r) ∈ v.explicit →
    v.quoteSelection v.explicit o = v.quoteSelection (v.explicit ++ v.teamOnly) o
  /-- A team's rule gets the price that it has alone. -/
  teamOnly : ∀ o r, (o, r) ∈ v.teamOnly →
    v.quoteSelection [(o, r)] o = v.quoteSelection (v.explicit ++ v.teamOnly) o

theorem covers_wide {o' : String} (hout : isOutcomeRule r = false) :
    Boost.covers v.ctx v.market.id o r.scope = Boost.covers v.ctx v.market.id o' r.scope := by
  unfold isOutcomeRule at hout
  cases hscope : r.scope with
  | outcome m o'' =>
    rw [hscope] at hout
    cases hout
  | _ => rfl

theorem marketWide_isWide (h : v.marketWide = some r) : v.IsWide r := by
  obtain ⟨hr, hteam, hscope⟩ := mem_marketWideRule h
  refine ⟨hr, ?_, hteam, "", ?_⟩
  · unfold isOutcomeRule
    rcases hscope with hs | hs | ⟨c, -, hs⟩ | hs | hs <;> rw [hs]
  · rcases hscope with hs | hs | ⟨c, hc, hs⟩ | hs | hs
    · simp [Boost.covers, hs]
    · simp [Boost.covers, hs]
    · rw [hs]
      unfold MatchBoostContext.competitorIds at hc
      rw [List.mem_append, Option.mem_toList, Option.mem_toList] at hc
      simpa [Boost.covers] using hc
    · simp [Boost.covers, hs]
    · simp [Boost.covers, hs]

/-- A rule lands on a cell in one of three ways. -/
theorem Lands.cases (h : v.Lands r o) :
    ((o, r) ∈ v.explicit ∧ v.offer r o = v.quoteSelection v.explicit o) ∨
    ((o, r) ∈ v.teamOnly ∧ v.offer r o = v.quoteSelection [(o, r)] o) ∨
    (v.IsWide r ∧ v.explicit = [] ∧ v.offer r o = v.quoteWide r o) := by
  unfold Lands at h
  unfold offer
  split at h
  · next hout =>
    rw [if_pos hout]
    exact .inl ⟨h, rfl⟩
  · next hout =>
    rw [if_neg hout]
    split at h
    · next hteam =>
      rw [if_pos hteam]
      exact .inr (.inl ⟨h, rfl⟩)
    · next hteam =>
      rw [if_neg hteam]
      rw [Bool.not_eq_true] at hout hteam
      exact .inr (.inr ⟨⟨h.1, hout, hteam, o, h.2.1⟩, h.2.2, rfl⟩)

theorem lands_explicit (h : (o, r) ∈ v.explicit) :
    v.Lands r o ∧ v.offer r o = v.quoteSelection v.explicit o := by
  have hout : isOutcomeRule r = true := by
    unfold isOutcomeRule
    rw [((mem_explicit v).mp h).2]
  unfold Lands offer
  rw [if_pos hout, if_pos hout]
  exact ⟨h, rfl⟩

theorem lands_teamOnly (h : (o, r) ∈ v.teamOnly) :
    v.Lands r o ∧ v.offer r o = v.quoteSelection [(o, r)] o := by
  have hteam := teamOutcome_teamOnly ((mem_teamOnly v).mp h).2.2.1
  have hout : ¬ isOutcomeRule r = true := fun hout => by
    rw [outcome_not_teamOnly hout] at hteam
    cases hteam
  unfold Lands offer
  rw [if_neg hout, if_neg hout, if_pos hteam, if_pos hteam]
  exact ⟨h, rfl⟩

theorem lands_wide (h : v.IsWide r) (hnone : v.explicit = []) :
    v.Lands r o ∧ v.offer r o = v.quoteWide r o := by
  obtain ⟨hr, hout, hteam, o', hcovers⟩ := h
  unfold Lands offer
  rw [hout, hteam, if_neg Bool.false_ne_true, if_neg Bool.false_ne_true,
    if_neg Bool.false_ne_true, if_neg Bool.false_ne_true]
  exact ⟨⟨hr, (covers_wide v hout).trans hcovers, hnone⟩, rfl⟩

theorem eligible_rules (h : r ∈ v.eligible) : r ∈ v.config.rules := (mem_eligible.mp h).1

theorem rule_eq_of_id (hr : r ∈ v.config.rules) (hr' : r' ∈ v.config.rules) (hid : r.id = r'.id) :
    r = r' := by
  have h := (find_rule v).mpr ⟨hr, rfl⟩
  rw [(find_rule v).mpr ⟨hr', hid.symm⟩] at h
  exact (Option.some.inj h).symm

theorem explicit_teamOnly_functional : Functional (v.explicit ++ v.teamOnly) :=
  v.eligible_keyed.selections_functional

/-- What is displayed is the offer of a rule that lands there. -/
theorem displayed_iff : v.displayed o = some (id, price) ↔
    (∃ r, (o, r) ∈ v.explicit ++ v.teamOnly ∧ r.id = id ∧
      v.quoteSelection (v.explicit ++ v.teamOnly) o = some (r.id, price)) ∨
    (v.explicit ++ v.teamOnly = [] ∧
      ∃ r, v.marketWide = some r ∧ r.id = id ∧ v.quoteWide r o = some (r.id, price)) := by
  by_cases hsel : v.explicit ++ v.teamOnly = []
  · rw [displayed_wide v hsel, Option.bind_eq_some_iff]
    constructor
    · rintro ⟨r, hr, hq⟩
      obtain rfl := quoteWide_rule v hq
      exact .inr ⟨hsel, r, hr, rfl, hq⟩
    · rintro (⟨r, hr, -⟩ | ⟨-, r, hr, rfl, hq⟩)
      · rw [hsel] at hr
        cases hr
      · exact ⟨r, hr, hq⟩
  · rw [displayed_selections v hsel]
    constructor
    · intro hq
      obtain ⟨r, hget, rfl⟩ := quoteSelection_rule v hq
      exact .inl ⟨r, mem_of_mapGet hget, rfl, hq⟩
    · rintro (⟨r, -, rfl, hq⟩ | ⟨hno, -⟩)
      · exact hq
      · exact absurd hno hsel

theorem accepted_self (hr : r ∈ v.eligible) (hlands : v.Lands r o)
    (hoffer : v.offer r o = some (r.id, price)) :
    v.validate ⟨r.id, o, price⟩ = .ok (price, r.id) := by
  refine (validate_ok_iff v).mpr ⟨rfl, r, eligible_rules v hr, rfl, hlands, hoffer, ?_⟩
  rw [drift_self]
  decide +kernel

/-- Bets get what the card shows and nothing else, if and only if no second rule has a
say. -/
theorem placement_iff : (∀ o id price, v.displayed o = some (id, price) →
      v.validate ⟨id, o, price⟩ = .ok (price, id)) ∧
    (∀ args price id, v.validate args = .ok (price, id) →
      v.displayed args.outcomeId = some (id, price) ∧ id = args.ruleId) ↔ v.Unrivalled := by
  constructor
  · rintro ⟨haccepted, hrefused⟩
    -- an offer of a rule that lands would be accepted, so it is displayed
    have hshown {r : BoostRule} {o : String} {price : ℚ} (hr : r ∈ v.eligible)
        (hlands : v.Lands r o) (hoffer : v.offer r o = some (r.id, price)) :
        v.displayed o = some (r.id, price) :=
      (hrefused _ _ _ (accepted_self v hr hlands hoffer)).1
    -- and what a selection displays is what its rule is offered
    have hsame {r : BoostRule} {o : String} (hmem : (o, r) ∈ v.explicit ++ v.teamOnly)
        (hr : r ∈ v.eligible) (hlands : v.Lands r o) :
        v.offer r o = v.quoteSelection (v.explicit ++ v.teamOnly) o := by
      have hne : v.explicit ++ v.teamOnly ≠ [] := List.ne_nil_of_mem hmem
      refine Option.ext fun ⟨id, price⟩ => ?_
      rw [← displayed_selections v hne]
      constructor
      · intro hoffer
        rcases Lands.cases v hlands with ⟨hexp, heq⟩ | ⟨hteam, heq⟩ | ⟨hwide, -, heq⟩
        · rw [heq] at hoffer
          obtain ⟨r', hget, rfl⟩ := quoteSelection_rule v hoffer
          obtain rfl : r' = r := v.eligible_keyed.selectionsOn_functional o r' r
            (mem_of_mapGet hget) hexp
          exact hshown hr hlands (heq.trans hoffer)
        · rw [heq] at hoffer
          obtain ⟨r', hget, rfl⟩ := quoteSelection_rule v hoffer
          obtain rfl : r' = r := by
            have := List.mem_singleton.mp (mem_of_mapGet hget)
            exact (Prod.mk.inj this).2
          exact hshown hr hlands (heq.trans hoffer)
        · rw [heq] at hoffer
          obtain rfl := quoteWide_rule v hoffer
          exact hshown hr hlands (heq.trans hoffer)
      · intro hdisplayed
        obtain ⟨-, r', hr', hid, hlands', hoffer, -⟩ :=
          (validate_ok_iff v).mp (haccepted _ _ _ hdisplayed)
        replace hid : r'.id = id := hid
        have hdisplayed' := (displayed_iff v).mp hdisplayed
        rcases hdisplayed' with ⟨r'', hmem', hid'', -⟩ | ⟨hno, -⟩
        · obtain rfl : r'' = r := v.explicit_teamOnly_functional o r'' r hmem' hmem
          obtain rfl : r' = r'' := rule_eq_of_id v hr' (eligible_rules v hr)
            (hid.trans hid''.symm)
          rw [hid] at hoffer
          exact hoffer
        · exact absurd hno hne
    refine ⟨fun hnone r o hwide hsome => ?_, fun o r hmem => ?_, fun o r hmem => ?_⟩
    · obtain ⟨⟨id, price⟩, hq⟩ := Option.isSome_iff_exists.mp hsome
      obtain rfl := quoteWide_rule v hq
      obtain ⟨hlands, hoffer⟩ := lands_wide v (o := o) hwide hnone
      have hdisplayed := hshown hwide.1 hlands (hoffer.trans hq)
      rcases (displayed_iff v).mp hdisplayed with ⟨r', hmem, hid, -⟩ | ⟨hsel, r', hr', hid, -⟩
      · -- the rule of a team is not one for whole markets
        rw [hnone, List.nil_append] at hmem
        obtain ⟨-, hr', hout, -⟩ := (mem_teamOnly v).mp hmem
        obtain rfl := rule_eq_of_id v (eligible_rules v hr') (eligible_rules v hwide.1) hid
        have hteam := teamOutcome_teamOnly hout
        rw [hwide.2.2.1] at hteam
        cases hteam
      · obtain rfl := rule_eq_of_id v (eligible_rules v (marketWide_isWide v hr').1)
          (eligible_rules v hwide.1) hid
        exact ⟨(List.append_eq_nil_iff.mp hsel).2, hr'⟩
    · obtain ⟨hlands, hoffer⟩ := lands_explicit v hmem
      rw [← hoffer]
      exact hsame (List.mem_append_left _ hmem) ((mem_explicit v).mp hmem).1 hlands
    · obtain ⟨hlands, hoffer⟩ := lands_teamOnly v hmem
      rw [← hoffer]
      exact hsame (List.mem_append_right _ hmem) ((mem_teamOnly v).mp hmem).2.1 hlands
  · intro h
    have hoffer {r : BoostRule} {o : String} (hmem : (o, r) ∈ v.explicit ++ v.teamOnly) :
        r ∈ v.eligible ∧ v.Lands r o ∧
          v.offer r o = v.quoteSelection (v.explicit ++ v.teamOnly) o := by
      rcases List.mem_append.mp hmem with hexp | hteam
      · obtain ⟨hlands, hoffer⟩ := lands_explicit v hexp
        exact ⟨((mem_explicit v).mp hexp).1, hlands, hoffer.trans (h.explicit o r hexp)⟩
      · obtain ⟨hlands, hoffer⟩ := lands_teamOnly v hteam
        exact ⟨((mem_teamOnly v).mp hteam).2.1, hlands, hoffer.trans (h.teamOnly o r hteam)⟩
    refine ⟨fun o id price hdisplayed => ?_, fun args price id hvalid => ?_⟩
    · rcases (displayed_iff v).mp hdisplayed with ⟨r, hmem, rfl, hq⟩ | ⟨hsel, r, hr, rfl, hq⟩
      · obtain ⟨hr, hlands, heq⟩ := hoffer hmem
        exact accepted_self v hr hlands (heq.trans hq)
      · have hwide := marketWide_isWide v hr
        obtain ⟨hlands, heq⟩ := lands_wide v (o := o) hwide (List.append_eq_nil_iff.mp hsel).1
        exact accepted_self v hwide.1 hlands (heq.trans hq)
    · obtain ⟨rfl, r, -, hid, hlands, heq, -⟩ := (validate_ok_iff v).mp hvalid
      refine ⟨(displayed_iff v).mpr ?_, rfl⟩
      rcases Lands.cases v hlands with ⟨hexp, -⟩ | ⟨hteam, -⟩ | ⟨hwide, hnone, hwideq⟩
      · have hmem : (args.outcomeId, r) ∈ v.explicit ++ v.teamOnly :=
          List.mem_append_left _ hexp
        exact .inl ⟨r, hmem, hid, (hoffer hmem).2.2.symm.trans heq⟩
      · have hmem : (args.outcomeId, r) ∈ v.explicit ++ v.teamOnly :=
          List.mem_append_right _ hteam
        exact .inl ⟨r, hmem, hid, (hoffer hmem).2.2.symm.trans heq⟩
      · rw [hwideq] at heq
        obtain ⟨hteam, hmw⟩ := h.wide hnone r args.outcomeId hwide (by rw [heq]; rfl)
        exact .inr ⟨by rw [hnone, hteam]; rfl, r, hmw, hid, heq⟩

end Card

end Oddzilla.Boost
