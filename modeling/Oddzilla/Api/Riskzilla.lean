import Oddzilla.Store.Engine

/-!
# RiskZilla's gates

The pure part of `lib/riskzilla/engine.ts` and `bot-controls.ts`: what `evaluate`
and `evaluateVelocity` decide from the rows they have read, and the sums those
queries compute.  JavaScript numbers are rationals; of the decision's metadata
only the bank terms are kept.
-/

namespace Oddzilla.Riskzilla

open Oddzilla

/-! ## Configuration -/

/-- A `riskzilla_settings` row. -/
structure SettingsRow where
  matchLiabilityMicro : Int
  minBetMicro : Int
  maxPayoutMicro : Int
  betFactor : ℚ

structure BotControls where
  velocityEnabled : Bool
  maxBetsPerMinute : ℚ
  maxMatchesPerMinute : ℚ

structure Config where
  /-- `riskzilla_settings`, by tier -/
  settings : Nat → Option SettingsRow
  /-- `riskzilla_market_factors`, by provider market id -/
  marketFactors : Int → Option ℚ
  controls : BotControls
  /-- `markets.match_id` -/
  matchOf : MarketId → Nat

/-- `UNTIERED_RISK_TIER` -/
def untieredRiskTier : Nat := 10

structure IntentLeg where
  marketId : MarketId
  outcomeId : OutcomeId
  matchId : Nat
  providerMarketId : Int
  riskTier : Option Nat
  oddsAtPlacement : ℚ

structure Intent where
  userId : UserId
  currency : Currency
  stakeMicro : Int
  potentialPayoutMicro : Int
  legs : List IntentLeg
  userStatus : String
  userRiskScore : ℚ

/-! ## Decisions -/

inductive Rejection
  | minStake | maxPayout | matchLiability | betFactor | bankLimit | userBlocked | marketFactor
  | velocityBets | velocityMatches
  deriving DecidableEq, Repr

/-- The decision as `riskzilla_event_log` stores it. -/
def Rejection.decision : Rejection → String
  | .minStake => "rejected_min_stake"
  | .maxPayout => "rejected_max_payout"
  | .matchLiability => "rejected_match_liability"
  | .betFactor => "rejected_bet_factor"
  | .bankLimit => "rejected_bank_limit"
  | .userBlocked => "rejected_user_blocked"
  | .marketFactor => "rejected_market_factor"
  | .velocityBets => "rejected_velocity"
  | .velocityMatches => "rejected_velocity"

def Rejection.reason : Rejection → String
  | .minStake => "stake_below_min"
  | .maxPayout => "payout_above_max"
  | .matchLiability => "match_liability_exceeded"
  | .betFactor => "bettor_match_share_exceeded"
  | .bankLimit => "bank_limit_exceeded"
  | .userBlocked => "account_not_active"
  | .marketFactor => "market_factor_zero"
  | .velocityBets => "velocity_bets_per_minute_exceeded"
  | .velocityMatches => "velocity_matches_per_minute_exceeded"

/-- The bank terms of a decision; all zero where the engine was bypassed. -/
structure BankTerms where
  bankLimitMicro : Int := 0
  openLiabilityMicroBefore : Int := 0
  userBalancesMicro : Int := 0
  deriving DecidableEq, Repr

inductive Decision
  | accepted (terms : BankTerms)
  | rejected (why : Rejection) (terms : BankTerms)
  deriving DecidableEq

/-! ## Arithmetic -/

/-- `Math.round` -/
def mathRound (x : ℚ) : Int := ⌊x + 1 / 2⌋

def multiplyMicroByFactor (amountMicro : Int) (factor : ℚ) : Int :=
  if factor ≤ 0 then 0
  else if 1 ≤ factor then amountMicro
  else (amountMicro * mathRound (factor * 10000)).tdiv 10000

def velocityCapFor (base riskScore : ℚ) : Int :=
  max 1 (mathRound (base * if 0 < riskScore then riskScore else 1))

def netwin (odds : ℚ) : ℚ := max 0 (odds - 1)

/-! ## The sums -/

section

variable (cfg : Config) (db : Db)

/-- An open ticket in the managed currency, of `user` if one is given. -/
def openTicket (user : Option UserId) (id : TicketId) : Option Ticket :=
  (db.tickets id).filter fun t =>
    (t.status = .accepted || t.status = .pendingDelay) && t.currency = Db.riskzillaCurrency &&
      user.all (t.userId = ·)

/-- The leg's share of its ticket's net win; equal shares if there is none. -/
def legShare (k : SelKey) : ℚ :=
  let total := ((db.selectionsOf k.ticketId).map fun s => netwin s.oddsAtPlacement).sum
  if total ≤ 0 then 1 / (db.selectionsOf k.ticketId).length
  else netwin (db.sel k).oddsAtPlacement / total

/-- `ROUND(SUM(amount × share))` over the legs that `p` selects. -/
def sumShares (user : Option UserId) (p : SelKey → Bool) (amount : Ticket → Int) : Int :=
  round ((db.selKeys.filter p).map fun k =>
    match openTicket db user k.ticketId with
    | some t => amount t * legShare db k
    | none => 0).sum

/-- Payout and stake of one bucket. -/
def bucketRow (matchIds : List Nat) (user : Option UserId) (m : MarketId) (o : OutcomeId) :
    Int × Int :=
  let p : SelKey → Bool := fun k => k.marketId = m && k.outcomeId = o && cfg.matchOf m ∈ matchIds
  (sumShares db user p (·.potentialPayoutMicro), sumShares db user p (·.stakeMicro))

/-- Stake on one market. -/
def marketSumRow (matchIds : List Nat) (user : Option UserId) (m : MarketId) : Int :=
  sumShares db user (fun k => k.marketId = m && cfg.matchOf m ∈ matchIds) (·.stakeMicro)

/-- The user's tickets of the last minute. -/
def recentTickets (user : UserId) (nowMs : Int) : List TicketId :=
  ((db.selKeys.map (·.ticketId)).dedup).filter fun id =>
    (db.tickets id).any fun t => t.userId = user && nowMs - 60000 ≤ t.placedAtMs

/-- How many they are, and the matches they are on. -/
def recent (user : UserId) (nowMs : Int) : Nat × List Nat :=
  let ids := recentTickets db user nowMs
  (ids.length,
    ((db.selKeys.filter fun k => k.ticketId ∈ ids).map fun k => cfg.matchOf k.marketId).dedup)

end

/-! ## evaluateVelocity -/

/-- The velocity gate, from the trailing minute's counts. -/
def velocityGate (cfg : Config) (intent : Intent) (recent : Nat × List Nat) : Option Rejection :=
  let matchesAfter := (recent.2 ++ intent.legs.map (·.matchId)).dedup.length
  if velocityCapFor cfg.controls.maxBetsPerMinute intent.userRiskScore < recent.1 + 1 then
    some .velocityBets
  else if velocityCapFor cfg.controls.maxMatchesPerMinute intent.userRiskScore < matchesAfter then
    some .velocityMatches
  else none

/-! ## evaluate -/

def tierFor (cfg : Config) (fallback : SettingsRow) (leg : IntentLeg) : SettingsRow :=
  (cfg.settings (leg.riskTier.getD untieredRiskTier)).getD fallback

/-- The gates on the ticket as a whole: the strictest tier's bounds, and suspended
market types. -/
def ticketGate (cfg : Config) (fallback : SettingsRow) (intent : Intent) (first : IntentLeg) :
    Option Rejection :=
  let minBet := intent.legs.foldl (fun m leg => max m (tierFor cfg fallback leg).minBetMicro)
    (tierFor cfg fallback first).minBetMicro
  let maxPayout := intent.legs.foldl (fun m leg => min m (tierFor cfg fallback leg).maxPayoutMicro)
    (tierFor cfg fallback first).maxPayoutMicro
  if intent.stakeMicro < minBet then some .minStake
  else if maxPayout < intent.potentialPayoutMicro then some .maxPayout
  else if intent.legs.any fun leg => (cfg.marketFactors leg.providerMarketId).getD 1 ≤ 0 then
    some .marketFactor
  else none

/-- What the four liability queries return. -/
structure Buckets where
  bucket : MarketId → OutcomeId → Int × Int
  market : MarketId → Int
  bettorBucket : MarketId → OutcomeId → Int × Int
  bettorMarket : MarketId → Int

/-- The leg's slice of the ticket. -/
def intentShare (intent : Intent) (leg : IntentLeg) : ℚ :=
  let total := (intent.legs.map fun l => netwin l.oddsAtPlacement).sum
  if total ≤ 0 then 1 / intent.legs.length else netwin leg.oddsAtPlacement / total

/-- The caps on one leg's bucket, for everybody and for this bettor. -/
def legGate (cfg : Config) (fallback : SettingsRow) (intent : Intent) (b : Buckets)
    (leg : IntentLeg) :
    Option Rejection :=
  let tier := tierFor cfg fallback leg
  let matchCap := multiplyMicroByFactor tier.matchLiabilityMicro
    ((cfg.marketFactors leg.providerMarketId).getD 1)
  let bettorCap :=
    min (multiplyMicroByFactor matchCap (tier.betFactor * intent.userRiskScore)) matchCap
  let increment := multiplyMicroByFactor intent.potentialPayoutMicro (intentShare intent leg)
  let after (payoutStake : Int × Int) (market : Int) : Int :=
    max 0 (payoutStake.1 + increment - market + payoutStake.2)
  if matchCap < after (b.bucket leg.marketId leg.outcomeId) (b.market leg.marketId) then
    some .matchLiability
  else if bettorCap < after (b.bettorBucket leg.marketId leg.outcomeId) (b.bettorMarket leg.marketId) then
    some .betFactor
  else none

/-- The first leg that breaches a cap decides. -/
def legGates (cfg : Config) (fallback : SettingsRow) (intent : Intent) (b : Buckets) :
    Option Rejection :=
  intent.legs.findSome? (legGate cfg fallback intent b)

/-- Bettor balances, open liability and the new payout fit under the limit. -/
def bankGate (intent : Intent) (terms : BankTerms) : Option Rejection :=
  if terms.bankLimitMicro <
      terms.userBalancesMicro + terms.openLiabilityMicroBefore + intent.potentialPayoutMicro then
    some .bankLimit
  else none

end Oddzilla.Riskzilla
