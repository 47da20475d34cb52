import Oddzilla.Odds.Products

/-!
# Pricing a placement

What `place()` computes from the server's own leg prices: the checks on the
number of legs, the price of each product and the `bet_meta` that is frozen on
the ticket.  Numbers are taken exactly; `Math.round` is `round` (half up),
`toFixed` rounds half up and `floorToDecimalsString` cuts.
-/

namespace Oddzilla

/-! ## money.ts -/

/-- `floor(amount × odds)` with the odds rounded to 4 decimals. -/
def multiplyMicroByOdds (amountMicro : Int) (odds : ℚ) : Except Error Int :=
  if odds < 0 then .error (.msg "invalid odds")
  else .ok ((amountMicro * round (odds * 10000)).tdiv 10000)

/-! ## combi-boost.ts -/

/-- The table's CHECK keeps every multiplier above 1. -/
structure CombiBoostTier where
  minLegs : Nat
  multiplier : ℚ
  one_lt : 1 < multiplier

structure CombiBoostConfig where
  enabled : Bool
  minOdds : ℚ
  tiers : List CombiBoostTier

/-- The multiplier of the last tier that enough eligible legs unlock. -/
def computeCombiBoost (legOdds : List ℚ) (config : CombiBoostConfig) : ℚ :=
  if config.enabled then
    let eligible := legOdds.countP fun o => decide (config.minOdds ≤ o)
    ((config.tiers.filter fun t => t.minLegs ≤ eligible).getLast?.map (·.multiplier)).getD 1
  else 1

/-! ## place() -/

/-- `bet_product_config` -/
structure BetProductConfig where
  marginBp : Int
  marginBpPerLeg : Int
  minLegs : Nat
  maxLegs : Nat
  enabled : Bool

/-- One leg at the price the server settled on, with the outcome's win
probability when the feed has sent one. -/
structure PricedLeg where
  odds : ℚ
  probability : Option ℚ

/-- A placement once its legs are looked up and priced.  `boostVisible` is false
when a promo rule hides the combi boost on a leg; `expectedOddsX10000` is the
session price of a bet builder, validated with the odds provider. -/
structure PlaceRequest where
  betType : BetType
  stakeMicro : Int
  legs : List PricedLeg
  productCfg : Option BetProductConfig
  combiBoost : CombiBoostConfig
  boostVisible : Bool
  expectedOddsX10000 : Int

def effectiveMarginBp (cfg : BetProductConfig) (legs : Nat) : Int :=
  round (((1 + (cfg.marginBp : ℚ) / 10000) * (1 + (cfg.marginBpPerLeg : ℚ) / 10000) ^ legs - 1) *
    10000)

/-- The checks on the request's shape, in order. -/
def checkShape (req : PlaceRequest) : Except Error Unit :=
  if req.legs = [] then .error (.msg "no_selections")
  else if req.betType = .single ∧ req.legs.length ≠ 1 then .error (.msg "single_requires_one_leg")
  else if req.betType ≠ .single ∧ req.betType ≠ .system ∧ req.legs.length ≤ 1 then
    .error (.msg "multi_leg_required")
  else if req.betType = .system then .error (.msg "bet_type_unsupported")
  else .ok ()

/-- The product's configuration and its bounds on the number of legs; singles,
combos and bet builders are capped at 20. -/
def checkLegCount (req : PlaceRequest) : Except Error Unit :=
  if req.betType = .tiple ∨ req.betType = .tippot then
    match req.productCfg with
    | none => .error (.msg "bet_product_unconfigured")
    | some cfg =>
      if ¬ cfg.enabled then .error (.msg "bet_product_disabled")
      else if req.legs.length < cfg.minLegs then .error (.msg "too_few_legs")
      else if cfg.maxLegs < req.legs.length then .error (.msg "too_many_legs")
      else .ok ()
  else if 20 < req.legs.length then .error (.msg "too_many_legs")
  else .ok ()

/-- Each leg must be able to profit. -/
def checkLegOdds (req : PlaceRequest) : Except Error Unit :=
  if req.legs.all fun leg => decide (1 < leg.odds) then .ok ()
  else .error (.msg "outcome_odds_too_low")

/-- The legs' probabilities, which tiple and tippot need strictly inside (0, 1). -/
def probabilities (req : PlaceRequest) : Except Error (List ℚ) :=
  req.legs.mapM fun leg =>
    match leg.probability with
    | none => .error (.msg "outcome_no_probability")
    | some p => if 0 < p ∧ p < 1 then .ok p else .error (.msg "outcome_probability_extreme")

def legOdds (req : PlaceRequest) : List ℚ := req.legs.map (·.odds)

def marginFor (req : PlaceRequest) : Int :=
  (req.productCfg.map fun cfg => effectiveMarginBp cfg req.legs.length).getD 0

def priceTipleTicket (req : PlaceRequest) : Except Error (Int × Option BetMetaJson) := do
  let offered ← priceTiple (← probabilities req) (marginFor req)
  if offered < 101 / 100 then .error (.msg "tiple_odds_too_low")
  else
    let payout ← multiplyMicroByOdds req.stakeMicro offered
    return (payout, some (.obj { product := "tiple" }))

/-- The top tier sets the displayed payout. -/
def priceTippotTicket (req : PlaceRequest) : Except Error (Int × Option BetMetaJson) := do
  let quote ← Products.priceTippot (← probabilities req) (marginFor req)
  let tiers := quote.tiers.map (·.multiplier)
  let payout ← multiplyMicroByOdds req.stakeMicro (tiers.getLast?.getD 0)
  return (payout, some (.obj { product := "tippot", tiers := tiers.map some }))

def priceBetBuilderTicket (req : PlaceRequest) : Except Error (Int × Option BetMetaJson) :=
  let decimalOdds : ℚ := req.expectedOddsX10000 / 10000
  if decimalOdds < 101 / 100 then .error (.msg "betbuilder_odds_too_low")
  else do
    let payout ← multiplyMicroByOdds req.stakeMicro decimalOdds
    return (payout, some (.obj { product := "betbuilder", oddsX10000 := req.expectedOddsX10000 }))

/-- The boost a combo gets; a single gets none. -/
def combiMultiplier (req : PlaceRequest) : ℚ :=
  if req.betType = .combo then
    if 1 < computeCombiBoost (legOdds req) req.combiBoost ∧ ¬ req.boostVisible then 1
    else computeCombiBoost (legOdds req) req.combiBoost
  else 1

/-- Single and combo: the product of the leg prices and the boost.  A boost is
frozen with two decimals. -/
def priceOddsTicket (req : PlaceRequest) : Except Error (Int × Option BetMetaJson) := do
  let payout ← multiplyMicroByOdds req.stakeMicro ((legOdds req).prod * combiMultiplier req)
  return (payout, if 1 < combiMultiplier req then
    some (.obj { product := "combo", boostMultiplier := some (toFixed 2 (combiMultiplier req)) })
    else none)

/-- `potential_payout_micro` and `bet_meta` of the ticket. -/
def pricePlacement (req : PlaceRequest) : Except Error (Int × Option BetMetaJson) := do
  checkShape req
  checkLegCount req
  checkLegOdds req
  match req.betType with
  | .tiple => priceTipleTicket req
  | .tippot => priceTippotTicket req
  | .betbuilder => priceBetBuilderTicket req
  | _ => priceOddsTicket req

end Oddzilla
