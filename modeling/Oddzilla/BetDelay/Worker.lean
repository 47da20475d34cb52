import Oddzilla.Lib.Decimal
import Oddzilla.Store.TicketWrites

/-!
# The bet-delay worker's re-check

`evaluate` of `worker.go` with `adjust.go`: each leg of a pending ticket is
compared with the bettor's adjusted current price, and a ticket whose owner
accepts odds changes is re-priced on the legs that have drifted.  Prices are
rationals; a nil or empty published price and a probability that does not parse
are `none`.
-/

namespace Oddzilla

/-! ## adjust.go -/

def adjustedOddsFloor : ℚ := 1001 / 1000

/-- The raw price moved by `bp`, capped at the fair price `1 / p` and floored. -/
def applyBettorAdjustment (rawOdds : ℚ) (probability : Option ℚ) (bp : Int) : ℚ :=
  if bp = 0 then rawOdds
  else if rawOdds ≤ 0 then rawOdds
  else
    let adjusted := rawOdds * (1 + bp / 10000)
    let capped :=
      match probability with
      | some p => if 0 < p ∧ p < 1 then min adjusted (1 / p) else adjusted
      | none => adjusted
    max capped adjustedOddsFloor

/-- Snap a price in units of `1e-4` down onto the quote ladder; below 1.01 there
is no rung. -/
def ladderUnits (units : Int) : Int :=
  if units < 10100 then units
  else
    let step : Int :=
      if units < 100000 then 100
      else if units < 200000 then 1000
      else if units < 500000 then 5000
      else if units < 1000000 then 10000
      else 50000
    units / step * step

/-- The price that `formatOddsTrim` writes, as a number: trailing zeros are
trimmed only. -/
def formatOddsTrim (v : ℚ) : ℚ :=
  let units := ⌊v * 10000 + 1 / 10 ^ 6⌋
  if units < 0 then round (v * 100) / 100 else ladderUnits units / 10000

/-! ## The bettor's cascade -/

/-- `BettorAdjustment`; an empty cascade resolves to 0 everywhere. -/
structure BettorAdjustment where
  globalBp : Option Int := none
  bySport : Nat → Option Int := fun _ => none
  byTournament : Nat → Option Int := fun _ => none
  byMatch : Nat → Option Int := fun _ => none

/-- match > tournament > sport > global -/
def BettorAdjustment.resolve (b : BettorAdjustment) (matchId tournamentId sportId : Nat) : Int :=
  ((b.byMatch matchId).or ((b.byTournament tournamentId).or
    ((b.bySport sportId).or b.globalBp))).getD 0

/-! ## worker.go -/

/-- What `evaluate` reads of a `PendingTicket`. -/
structure PendingTicket where
  betType : BetType
  stakeMicro : Int
  acceptOddsChanges : Bool
  betMeta : Option BetMetaJson

/-- A `ticket_selections` row with the market's current state.  `published_odds`
is `NUMERIC(10, 4)`. -/
structure DelaySelection where
  marketId : MarketId
  outcomeId : OutcomeId
  oddsAtPlacement : ℚ
  currentPublished : Option ℚ
  outcomeActive : Bool
  marketStatus : Int
  matchId : Nat
  tournamentId : Nat
  sportId : Nat
  probability : Option ℚ
  boostRule : Bool
  published_grid : ∀ raw, currentPublished = some raw → Decimal.OnGrid 4 raw

/-- `current` is the price that is multiplied, `currentS` the price that is
written. -/
structure LegCheck where
  marketId : MarketId
  outcomeId : OutcomeId
  placed : ℚ
  current : ℚ
  currentS : ℚ
  drifted : Bool
  deriving DecidableEq

inductive EvalResult
  | reject (reason : String)
  | accept
  | acceptWithUpdatedOdds (newPayoutMicro : Int) (updatedLegs : List Db.UpdatedLegOdds)
  deriving DecidableEq

def PendingTicket.skipDrift (p : PendingTicket) : Bool := p.betType == .betbuilder

def PendingTicket.canReprice (p : PendingTicket) : Bool :=
  p.acceptOddsChanges && (p.betType == .single || p.betType == .combo)

/-- The adjusted price and the price as it is written: without an adjustment the
published text is kept. -/
def currentPrice (adj : BettorAdjustment) (s : DelaySelection) (raw : ℚ) : ℚ × ℚ :=
  let bp := adj.resolve s.matchId s.tournamentId s.sportId
  if bp = 0 then (raw, raw)
  else
    let adjusted := applyBettorAdjustment raw s.probability bp
    (adjusted, formatOddsTrim adjusted)

def checkLeg (driftTolerance : ℚ) (p : PendingTicket) (adj : BettorAdjustment)
    (s : DelaySelection) : Except String LegCheck :=
  if s.marketStatus ≠ 1 then .error "market_suspended"
  else if ¬ s.outcomeActive then .error "outcome_inactive"
  else
    match s.currentPublished with
    | none => .error "no_current_price"
    | some raw =>
      if s.oddsAtPlacement ≤ 0 ∨ raw ≤ 0 then .error "odds_parse"
      else
        let price := currentPrice adj s raw
        let drifted := !p.skipDrift && !s.boostRule &&
          decide (driftTolerance < |price.1 - s.oddsAtPlacement| / s.oddsAtPlacement)
        if drifted ∧ ¬ p.canReprice then .error "odds_drift_exceeded"
        else .ok ⟨s.marketId, s.outcomeId, s.oddsAtPlacement, price.1, price.2, drifted⟩

/-- A multiplier of the ticket's metadata, when it is a combo's and positive. -/
def extractBoostMultiplier : Option BetMetaJson → ℚ
  | some (.obj m) =>
    if m.product = "combo" then
      match m.boostMultiplier with
      | some v => if v ≤ 0 then 1 else v
      | none => 1
    else 1
  | _ => 1

/-- The price of a leg in the new product: current for a leg that is rewritten,
placed for the others. -/
def LegCheck.price (c : LegCheck) : ℚ := if c.drifted then c.current else c.placed

def updatesOf (checks : List LegCheck) : List Db.UpdatedLegOdds :=
  (checks.filter (·.drifted)).map fun c => ⟨c.marketId, c.outcomeId, c.currentS⟩

/-- The re-priced product with the frozen boost. -/
def repricedOdds (betMeta : Option BetMetaJson) (checks : List LegCheck) : ℚ :=
  let product := (checks.map LegCheck.price).prod
  if 1 < extractBoostMultiplier betMeta then product * extractBoostMultiplier betMeta else product

/-- `stake × trunc(odds × 1e8) / 1e8` in big integers. -/
def repricedPayout (stakeMicro : Int) (odds : ℚ) : Int :=
  let scaled : Int := if 0 ≤ odds then ⌊odds * 10 ^ 8⌋ else ⌈odds * 10 ^ 8⌉
  stakeMicro * scaled / 10 ^ 8

def isInt64 (n : Int) : Bool := decide (-2 ^ 63 ≤ n ∧ n < 2 ^ 63)

def evaluate (driftTolerance : ℚ) (p : PendingTicket) (selections : List DelaySelection)
    (adj : BettorAdjustment) : EvalResult :=
  if selections = [] then .reject "no_selections"
  else
    match selections.mapM (checkLeg driftTolerance p adj) with
    | .error reason => .reject reason
    | .ok checks =>
      if ¬ checks.any (·.drifted) then .accept
      else
        let newPayout := repricedPayout p.stakeMicro (repricedOdds p.betMeta checks)
        if ¬ isInt64 newPayout ∨ newPayout ≤ 0 then .reject "odds_drift_exceeded"
        else .acceptWithUpdatedOdds newPayout (updatesOf checks)

/-- The row as the worker has fetched it, with its `accept_odds_changes`. -/
def Ticket.pending (t : Ticket) (acceptOddsChanges : Bool) : PendingTicket :=
  ⟨t.betType, t.stakeMicro, acceptOddsChanges, t.betMeta⟩

/-- The writes of `processTicket` once the row is locked: a ticket that is no
longer pending is left alone. -/
def Db.processTicket (db : Db) (driftTolerance : ℚ) (acceptOddsChanges : Bool) (id : TicketId)
    (selections : List DelaySelection) (adj : BettorAdjustment) : Except Error (List RowVersion) :=
  match db.tickets id with
  | none => .ok []
  | some t =>
    if t.status ≠ .pendingDelay then .ok []
    else
      match evaluate driftTolerance (t.pending acceptOddsChanges) selections adj with
      | .reject reason =>
        db.rejectAndRefund id t.userId t.currency reason t.stakeMicro t.potentialPayoutMicro
      | .accept => .ok (db.accept id)
      | .acceptWithUpdatedOdds newPayoutMicro updatedLegs =>
        db.acceptWithUpdatedOdds id t.currency t.potentialPayoutMicro newPayoutMicro updatedLegs

end Oddzilla
