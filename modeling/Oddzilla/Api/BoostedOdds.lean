import Oddzilla.Odds.Netwinstable

/-!
# Boosted odds

`lib/boosted-odds.ts`, the route of the match page in `modules/boosted-odds/routes.ts` and
what `live-markets.tsx` makes of its answer.  Matches and markets are open ones.
-/

namespace Oddzilla.Boost

open Binary64 (nearest)

abbrev CompetitorId := Nat
abbrev MarketId := Nat

/-- The scope of a rule with the id it is pinned to. -/
inductive Scope
  | sport (sportId : Nat)
  | tournament (tournamentId : Nat)
  | match' (matchId : Nat)
  | competitor (competitorId : CompetitorId)
  | market (marketId : MarketId)
  | outcome (marketId : MarketId) (outcomeId : String)
  deriving DecidableEq

inductive CompetitorBoostMarkets
  | all | teamOnly
  deriving DecidableEq

structure BoostRule where
  id : RuleId
  scope : Scope
  boostPct : ℚ
  startsAtMs : Option Int := none
  endsAtMs : Option Int := none
  minRiskScore : Option ℚ := none
  competitorMarkets : CompetitorBoostMarkets := .all
  deriving DecidableEq

/-- `boosted_odds_config`: one rule per scope and ref. -/
structure Config where
  rules : List BoostRule
  ids : rules.Pairwise fun r r' => r.id ≠ r'.id
  scopes : rules.Pairwise fun r r' => r.scope ≠ r'.scope

structure MatchBoostContext where
  matchId : Nat
  tournamentId : Nat
  sportId : Nat
  homeCompetitorId : Option CompetitorId
  awayCompetitorId : Option CompetitorId

def MatchBoostContext.competitorIds (ctx : MatchBoostContext) : List CompetitorId :=
  ctx.homeCompetitorId.toList ++ ctx.awayCompetitorId.toList

structure MarketOutcome where
  outcomeId : String
  publishedOdds : Option ℚ
  active : Bool := true

/-- A market's row with the rows of its outcomes. -/
structure Market where
  id : MarketId
  providerMarketId : Nat
  outcomes : List MarketOutcome
  outcomes_keyed : outcomes.Pairwise fun o o' => o.outcomeId ≠ o'.outcomeId

def Market.outcomeIds (m : Market) : List String := m.outcomes.map (·.outcomeId)

/-- `loadQuotableOutcomes`; `Number` is the nearest double. -/
def Market.priced (m : Market) : List BoostQuoteOutcome :=
  m.outcomes.filterMap fun o =>
    match o.publishedOdds with
    | some odds =>
      if o.active && isQuotableOutcomeOdds (nearest odds) then some ⟨o.outcomeId, nearest odds⟩ else none
    | none => none

def Market.pricedIds (m : Market) : List String := m.priced.map (·.outcomeId)

def BoostRule.toQuoteRule (r : BoostRule) : BoostQuoteRule := ⟨r.id, nearest r.boostPct, r.endsAtMs⟩

def ruleWindowIsOpen (nowMs : Int) (r : BoostRule) : Bool :=
  r.startsAtMs.all (· ≤ nowMs) && r.endsAtMs.all (nowMs < ·)

def passesRiskGate (riskScore : ℚ) (r : BoostRule) : Bool := r.minRiskScore.all (· ≤ riskScore)

/-! ## `team_only` rules -/

def isTeamOnlyRule (r : BoostRule) : Bool :=
  match r.scope with
  | .competitor _ => r.competitorMarkets = .teamOnly
  | _ => false

def teamOutcomeForRule (ctx : MatchBoostContext) (r : BoostRule) : Option String :=
  match r.scope with
  | .competitor c =>
    if r.competitorMarkets ≠ .teamOnly then none
    else if ctx.homeCompetitorId = some c then some "1"
    else if ctx.awayCompetitorId = some c then some "2"
    else none
  | _ => none

def fonbetPmidBase : Nat := 1000000

def isTeamShapedMarket (providerMarketId : Nat) (outcomeIds : List String) : Bool :=
  if providerMarketId = 1 ∨ providerMarketId = 4 then true
  else if providerMarketId < fonbetPmidBase then false
  else outcomeIds.contains "1" && outcomeIds.contains "2"

/-! ## `loadBoostRulesForMatches` -/

/-- The `WHERE` of the two loaders but for the window. -/
def inBatch (contexts : List MatchBoostContext) (marketIds : List MarketId) : Scope → Bool
  | .sport s => contexts.any fun ctx => ctx.sportId = s
  | .tournament t => contexts.any fun ctx => ctx.tournamentId = t
  | .match' m => contexts.any fun ctx => ctx.matchId = m
  | .competitor c => contexts.any fun ctx => ctx.competitorIds.contains c
  | .market m => marketIds.contains m
  | .outcome m _ => marketIds.contains m

def loadBoostRules (config : Config) (nowMs : Int) (contexts : List MatchBoostContext)
    (marketIds : List MarketId) (riskScore : ℚ) : List BoostRule :=
  config.rules.filter fun r =>
    ruleWindowIsOpen nowMs r && inBatch contexts marketIds r.scope && passesRiskGate riskScore r

/-- The `Map`s of the resolver, by one key: the last rule with it. -/
def pick (rules : List BoostRule) (scope : Scope) : Option BoostRule :=
  rules.reverse.find? fun r => r.scope = scope

/-- `selectionsByMarket`, and `loadSelectionRules` -/
def selectionsOn (rules : List BoostRule) (marketId : MarketId) : List (String × BoostRule) :=
  rules.filterMap fun r =>
    match r.scope with
    | .outcome m o => if m = marketId then some (o, r) else none
    | _ => none

def teamOnlyCells (rules : List BoostRule) (ctx : MatchBoostContext) (marketId : MarketId)
    (providerMarketId : Nat) (outcomeIds : List String) : List (String × BoostRule) :=
  if isTeamShapedMarket providerMarketId outcomeIds then
    ctx.competitorIds.filterMap fun c =>
      ((pick rules (.competitor c)).filter isTeamOnlyRule).bind fun r =>
        (teamOutcomeForRule ctx r).bind fun o =>
          if (mapGet (selectionsOn rules marketId) o).isSome then none else some (o, r)
  else []

/-- The higher percentage wins, the earlier rule among equals. -/
def better (best : Option BoostRule) (r : BoostRule) : Option BoostRule :=
  match best with
  | none => some r
  | some b => if b.boostPct < r.boostPct then some r else some b

def competitorBest (rules : List BoostRule) (ctx : MatchBoostContext) : Option BoostRule :=
  (ctx.competitorIds.filterMap fun c =>
    (pick rules (.competitor c)).filter fun r => !isTeamOnlyRule r).foldl better none

def marketWideRule (rules : List BoostRule) (ctx : MatchBoostContext) (marketId : MarketId) :
    Option BoostRule :=
  (pick rules (.market marketId)).or <| (pick rules (.match' ctx.matchId)).or <|
    (competitorBest rules ctx).or <| (pick rules (.tournament ctx.tournamentId)).or <|
      pick rules (.sport ctx.sportId)

/-- What prices a market: a rule of its own, or its selections if there are any. -/
structure Resolution where
  marketWide : Option BoostRule
  selections : List (String × BoostRule)

def resolve (rules : List BoostRule) (ctx : MatchBoostContext) (marketId : MarketId)
    (providerMarketId : Nat) (outcomeIds : List String) : Resolution where
  marketWide := marketWideRule rules ctx marketId
  selections := selectionsOn rules marketId ++
    teamOnlyCells rules ctx marketId providerMarketId outcomeIds

def quoteBoostedMarket (r : Resolution) (outcomes : List BoostQuoteOutcome) : List BoostQuoteCell :=
  quoteMarketBoost outcomes (r.marketWide.map BoostRule.toQuoteRule)
    (r.selections.map fun kv => (kv.1, kv.2.toQuoteRule))

/-- The rule id and the price that a cell shows. -/
def priceAt (cells : List BoostQuoteCell) (outcomeId : String) : Option (RuleId × ℚ) :=
  (cells.find? fun c => c.outcomeId = outcomeId).map fun c => (c.rule.ruleId, c.boostedOdds)

/-! ## `validateCustomBoostForBet` -/

/-- `CUSTOM_BOOST_PLACEMENT_TOLERANCE` -/
def customBoostPlacementTolerance : ℚ := nearest (1 / 100)

/-- `Math.abs(quoted - auth)` of two prices that are parsed -/
def drift (quoted auth : ℚ) : ℚ := |nearest (nearest quoted - nearest auth)|

theorem drift_self (q : ℚ) : drift q q = 0 := by
  unfold drift
  rw [sub_self, Binary64.nearest_zero, abs_zero]

structure BoostClaim where
  ruleId : RuleId
  outcomeId : String
  quotedOdds : ℚ

def covers (ctx : MatchBoostContext) (marketId : MarketId) (outcomeId : String) : Scope → Bool
  | .outcome m o => m = marketId && o = outcomeId
  | .market m => m = marketId
  | .match' m => m = ctx.matchId
  | .competitor c => ctx.homeCompetitorId = some c || ctx.awayCompetitorId = some c
  | .tournament t => t = ctx.tournamentId
  | .sport s => s = ctx.sportId

def isOutcomeRule (r : BoostRule) : Bool :=
  match r.scope with
  | .outcome _ _ => true
  | _ => false

/-- The authoritative price and the rule's id. -/
def validateCustomBoostForBet (config : Config) (nowMs : Int) (ctx : MatchBoostContext)
    (m : Market) (riskScore : ℚ) (args : BoostClaim) : Except String (ℚ × RuleId) :=
  match config.rules.find? fun r => r.id = args.ruleId with
  | none => .error "boosted_odds_unknown_rule"
  | some rule =>
    if ¬ ruleWindowIsOpen nowMs rule then
      .error (if rule.startsAtMs.any (nowMs < ·) then "boosted_odds_not_started"
        else "boosted_odds_rule_expired")
    else if ¬ passesRiskGate riskScore rule then .error "boosted_odds_not_eligible"
    else if ¬ covers ctx m.id args.outcomeId rule.scope then .error "boosted_odds_not_applicable"
    else if isTeamOnlyRule rule ∧ ¬ (isTeamShapedMarket m.providerMarketId m.pricedIds ∧
        teamOutcomeForRule ctx rule = some args.outcomeId) then
      .error "boosted_odds_not_applicable"
    else
      let selections := selectionsOn
        (config.rules.filter fun r => ruleWindowIsOpen nowMs r && passesRiskGate riskScore r) m.id
      let pricedAsSelection := isOutcomeRule rule || isTeamOnlyRule rule
      if ¬ pricedAsSelection ∧ selections ≠ [] then .error "boosted_odds_not_applicable"
      else if isTeamOnlyRule rule ∧ (mapGet selections args.outcomeId).isSome then
        .error "boosted_odds_not_applicable"
      else
        let effective : Resolution :=
          if pricedAsSelection then
            ⟨none, if isOutcomeRule rule then selections else [(args.outcomeId, rule)]⟩
          else ⟨some rule, []⟩
        match priceAt (quoteBoostedMarket effective m.priced) args.outcomeId with
        | none => .error "boosted_odds_not_applicable"
        | some (ruleId, auth) =>
          if ruleId ≠ rule.id then .error "boosted_odds_not_applicable"
          else if customBoostPlacementTolerance < drift args.quotedOdds auth then
            .error "boosted_odds_drift"
          else .ok (auth, rule.id)

/-! ## The match page -/

/-- The answer of `GET /catalog/matches/:matchId/boosted-odds`; `entries` and `selections`
are the rules they carry. -/
structure BoostedOddsResponse where
  entries : List BoostRule
  selections : List BoostRule
  matchWide : Option BoostRule
  teamOutcomeId : Option String

def isCompetitorRule (r : BoostRule) : Bool :=
  match r.scope with
  | .competitor _ => true
  | _ => false

/-- The last rule of a kind in the loop over the rules. -/
def lastOf (rules : List BoostRule) (kind : Scope → Bool) : Option BoostRule :=
  rules.reverse.find? fun r => kind r.scope

def isMatchScope : Scope → Bool
  | .match' _ => true
  | _ => false

def isTournamentScope : Scope → Bool
  | .tournament _ => true
  | _ => false

def isSportScope : Scope → Bool
  | .sport _ => true
  | _ => false

/-- The first rule with the highest percentage, of those on one of the two teams. -/
def teamOnlyBest (rules : List BoostRule) (ctx : MatchBoostContext) : Option BoostRule :=
  (rules.filter fun r => isTeamOnlyRule r && (teamOutcomeForRule ctx r).isSome).foldl better none

def competitorBestInOrder (rules : List BoostRule) : Option BoostRule :=
  (rules.filter fun r => isCompetitorRule r && !isTeamOnlyRule r).foldl better none

def selectionMarket (r : BoostRule) : Option MarketId :=
  match r.scope with
  | .outcome m _ => some m
  | _ => none

def boostedOddsRoute (rules : List BoostRule) (ctx : MatchBoostContext) : BoostedOddsResponse :=
  let selections := rules.filter isOutcomeRule
  let best := teamOnlyBest rules ctx
  { entries := rules.filter fun r =>
      match r.scope with
      | .market m => !selections.any fun x => selectionMarket x = some m
      | _ => false
    selections
    matchWide := best.or <| (lastOf rules isMatchScope).or <| (competitorBestInOrder rules).or <|
      (lastOf rules isTournamentScope).or <| lastOf rules isSportScope
    teamOutcomeId := best.bind (teamOutcomeForRule ctx) }

/-- What the page quotes a market with. -/
def pageResolution (data : BoostedOddsResponse) (m : Market) : Resolution :=
  let explicit := selectionsOn data.selections m.id
  let marketScoped := pick data.entries (.market m.id)
  let teamOnly :=
    match data.matchWide, data.teamOutcomeId with
    | some wide, some o =>
      if marketScoped.isNone && isTeamShapedMarket m.providerMarketId m.outcomeIds &&
          (mapGet explicit o).isNone then [(o, wide)]
      else []
    | _, _ => []
  { marketWide := marketScoped.or (if data.teamOutcomeId.isSome then none else data.matchWide)
    selections := explicit ++ teamOnly }

/-- The rule that prices a cell. -/
def Resolution.ruleAt (r : Resolution) (outcomeId : String) : Option BoostRule :=
  if r.selections ≠ [] then mapGet r.selections outcomeId else r.marketWide

end Oddzilla.Boost
