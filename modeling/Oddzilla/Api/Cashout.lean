import Oddzilla.Api.Pricing
import Oddzilla.BetDelay.Worker
import Oddzilla.Settler.Parallel

/-!
# Cashing out

`compute` of `cashout/algorithm.ts` and `accept()` of `cashout/service.ts`, next to
the bet-delay worker and the settler's transactions on one store.  `accept()` looks
at the quote, the ticket and its legs without a lock, prices the legs, and only then
opens the transaction that pays; the statements before it commit one by one, which
is how a transaction that holds nothing reads under READ COMMITTED.  JavaScript
numbers are rationals; the clock, the resolved configuration and the market side of
a leg are given with the call.
-/

namespace Oddzilla.Cashout

open Txn

/-! ## algorithm.ts -/

/-- `CashoutUnavailableReason`, as far as `compute` returns it. -/
inductive UnavailableReason
  | featureDisabled | betTypeUnsupported | legLost | legInactive | legNoProbability
  | belowChangeThreshold | belowMinimum
  deriving DecidableEq, Repr

structure LegInput where
  oddsAtPlacement : ℚ
  probabilityCurrent : Option ℚ
  oddsCurrent : Option ℚ
  active : Bool
  result : Option OutcomeResult
  voidFactor : Option String

structure LadderStep where
  factor : ℚ
  deduction : ℚ

structure Config where
  enabled : Bool
  prematchFullPaybackSeconds : Int
  deductionLadder : Option (List LadderStep)
  minOfferMicro : Int
  minValueChangeBp : ℚ

structure ComputeInput where
  betType : BetType
  stakeMicro : Int
  potentialPayoutMicro : Int
  placedAtMs : Int
  matchEarliestKickoffMs : Option Int
  legs : List LegInput
  config : Config
  nowMs : Int

/-- An offer is available when there is no reason against it. -/
structure ComputeOutput where
  reason : Option UnavailableReason
  offerMicro : Int
  ticketOdds : ℚ
  probability : ℚ
  ticketValueFairMicro : Int
  deductionFactor : Option ℚ
  fullPayback : Bool

def blank (reason : UnavailableReason) (ticketOdds probability : ℚ) : ComputeOutput :=
  ⟨some reason, 0, ticketOdds, probability, 0, none, false⟩

def parseFiniteFloat (x : ℚ) : Except Error ℚ :=
  if x ≤ 0 then .error (.msg "invalid decimal") else .ok x

/-- The probability of an open leg; without one the current price implies it. -/
def legProbability (leg : LegInput) : Except Error (Option ℚ) := do
  let p ← match leg.probabilityCurrent, leg.oddsCurrent with
    | some p, _ => .ok (some p)
    | none, some odds => (parseFiniteFloat odds).map fun oc => some (1 / oc)
    | none, none => .ok none
  return p.bind fun p =>
    if 0 < p ∧ p < 10001 / 10000 then some p
    else if 1 < p ∧ p ≤ 10001 / 10000 then some 1
    else none

/-- The loop over the legs: their odds and their probability, or the answer that ends
it. -/
def walkLegs : List LegInput → ℚ → ℚ → Except Error (ComputeOutput ⊕ ℚ × ℚ)
  | [], ticketOdds, probability => .ok (.inr (ticketOdds, probability))
  | leg :: legs, ticketOdds, probability =>
    if leg.result = some .lost then .ok (.inl (blank .legLost ticketOdds probability))
    else if leg.result = some .void ∨ leg.voidFactor = some "1" ∨ leg.voidFactor = some "1.0" then
      walkLegs legs ticketOdds probability
    else
      match leg.result with
      | some .won => do
        let odds ← parseFiniteFloat leg.oddsAtPlacement
        walkLegs legs (ticketOdds * odds) probability
      | some .halfWon => do
        let odds ← parseFiniteFloat leg.oddsAtPlacement
        walkLegs legs (ticketOdds * (1 + (odds - 1) * (1 / 2))) probability
      | some .halfLost => walkLegs legs (ticketOdds * (1 / 2)) probability
      | _ =>
        if ¬ leg.active then .ok (.inl (blank .legInactive 0 0))
        else do
          let odds ← parseFiniteFloat leg.oddsAtPlacement
          match ← legProbability leg with
          | none => .ok (.inl (blank .legNoProbability 0 0))
          | some p => walkLegs legs (ticketOdds * odds) (probability * p)

/-- Between two steps of the sorted ladder. -/
def interpolate (valueRatio : ℚ) : List LadderStep → Option ℚ
  | lo :: hi :: rest =>
    if lo.factor ≤ valueRatio ∧ valueRatio ≤ hi.factor then
      some (lo.deduction + (valueRatio - lo.factor) / (hi.factor - lo.factor) *
        (hi.deduction - lo.deduction))
    else interpolate valueRatio (hi :: rest)
  | _ => none

def lookupLadder (ladder : List LadderStep) (valueRatio : ℚ) : ℚ :=
  let sorted := ladder.mergeSort fun a b => decide (a.factor ≤ b.factor)
  match sorted.head?, sorted.getLast? with
  | some first, some last =>
    if valueRatio ≤ first.factor then first.deduction
    else if last.factor ≤ valueRatio then last.deduction
    else (interpolate valueRatio sorted).getD last.deduction
  | _, _ => 1

/-- Inside the window after the placement, before any match has started. -/
def ComputeInput.fullPaybackWindow (input : ComputeInput) : Bool :=
  decide (0 < input.config.prematchFullPaybackSeconds) &&
    decide (input.nowMs - input.placedAtMs ≤ input.config.prematchFullPaybackSeconds * 1000) &&
    input.matchEarliestKickoffMs.any fun kickoff => decide (input.nowMs < kickoff)

/-- The fair value less the deduction, and the factor. -/
def deduct (input : ComputeInput) (valueRatio : ℚ) (fairMicro : Int) :
    Except Error (Int × Option ℚ) :=
  match input.config.deductionLadder with
  | none => .ok (fairMicro, none)
  | some [] => .ok (fairMicro, none)
  | some ladder =>
    let factor := lookupLadder ladder (if 0 < input.stakeMicro then valueRatio else 1)
    if factor = 0 then .error (.msg "invalid odds")
    else (multiplyMicroByOdds fairMicro (1 / factor)).map fun offer => (offer, some factor)

/-- From the product of the legs to the offer. -/
def offerOf (input : ComputeInput) (ticketOdds probability : ℚ) : Except Error ComputeOutput := do
  let valueRatio := ticketOdds * probability
  let fair ← multiplyMicroByOdds input.stakeMicro valueRatio
  let (deducted, factor) ← deduct input valueRatio fair
  let full := input.fullPaybackWindow
  let offer := min (if full then input.stakeMicro else deducted) input.potentialPayoutMicro
  if ¬ full ∧ 0 < input.config.minValueChangeBp ∧ 0 < input.stakeMicro ∧
      |valueRatio - 1| * 10000 < input.config.minValueChangeBp then
    return ⟨some .belowChangeThreshold, 0, ticketOdds, probability, fair, factor, false⟩
  else if offer < input.config.minOfferMicro then
    return ⟨some .belowMinimum, offer, ticketOdds, probability, fair, factor, full⟩
  else return ⟨none, offer, ticketOdds, probability, fair, factor, full⟩

def compute (input : ComputeInput) : Except Error ComputeOutput :=
  if ¬ input.config.enabled then .ok (blank .featureDisabled 0 0)
  else if input.betType = .tiple ∨ input.betType = .tippot ∨ input.betType = .betbuilder then
    .ok (blank .betTypeUnsupported 0 0)
  else do
    match ← walkLegs input.legs 1 1 with
    | .inl out => return out
    | .inr (ticketOdds, probability) => offerOf input ticketOdds probability

/-- A leg ends the loop with a reason, or is not lost and the loop goes on. -/
theorem walkLegs_cons {leg : LegInput} {legs : List LegInput} {ticketOdds probability : ℚ}
    {r : ComputeOutput ⊕ ℚ × ℚ} (h : walkLegs (leg :: legs) ticketOdds probability = .ok r) :
    (∃ out, r = .inl out ∧ out.reason ≠ none) ∨
      leg.result ≠ some .lost ∧
        ∃ ticketOdds' probability', walkLegs legs ticketOdds' probability' = .ok r := by
  unfold walkLegs at h
  split at h
  · cases h
    exact .inl ⟨_, rfl, Option.some_ne_none _⟩
  rename_i hlost
  split at h
  · exact .inr ⟨hlost, _, _, h⟩
  split at h
  · obtain ⟨odds, -, h⟩ := bind_eq_ok.mp h
    exact .inr ⟨hlost, _, _, h⟩
  · obtain ⟨odds, -, h⟩ := bind_eq_ok.mp h
    exact .inr ⟨hlost, _, _, h⟩
  · exact .inr ⟨hlost, _, _, h⟩
  · split at h
    · cases h
      exact .inl ⟨_, rfl, Option.some_ne_none _⟩
    · obtain ⟨odds, -, h⟩ := bind_eq_ok.mp h
      obtain ⟨p, -, h⟩ := bind_eq_ok.mp h
      cases p with
      | none =>
        cases h
        exact .inl ⟨_, rfl, Option.some_ne_none _⟩
      | some p => exact .inr ⟨hlost, _, _, h⟩

/-- The loop ends with a reason, or it has met no lost leg. -/
theorem walkLegs_result {legs : List LegInput} {ticketOdds probability : ℚ}
    {r : ComputeOutput ⊕ ℚ × ℚ}
    (h : walkLegs legs ticketOdds probability = .ok r) :
    (∃ out, r = .inl out ∧ out.reason ≠ none) ∨ ∀ leg ∈ legs, leg.result ≠ some .lost := by
  induction legs generalizing ticketOdds probability with
  | nil => exact .inr fun leg hleg => absurd hleg List.not_mem_nil
  | cons leg legs ih =>
    rcases walkLegs_cons h with hout | ⟨hlost, o, p, hrest⟩
    · exact .inl hout
    · refine (ih hrest).imp_right fun hlegs l hl => ?_
      rcases List.mem_cons.mp hl with rfl | hl
      · exact hlost
      · exact hlegs l hl

/-- There is no offer on a ticket with a lost leg. -/
theorem compute_not_lost {input : ComputeInput} {out : ComputeOutput} (h : compute input = .ok out)
    (hout : out.reason = none) : ∀ leg ∈ input.legs, leg.result ≠ some .lost := by
  unfold compute at h
  split at h
  · cases h
    cases hout
  · split at h
    · cases h
      cases hout
    · obtain ⟨r, hr, h⟩ := bind_eq_ok.mp h
      rcases walkLegs_result hr with ⟨out', rfl, hreason⟩ | hlegs
      · cases h
        exact absurd hout hreason
      · exact hlegs

/-! ## Statements -/

/-- A leg of `loadLegs`: the selection with the status of its market. -/
structure LegRow where
  key : SelKey
  sel : Selection
  marketStatus : Int

inductive Op
  /-- a function of settlement's store -/
  | store (op : Oddzilla.Op)
  | findQuote (quoteId : QuoteId) (ticketId : TicketId)
  | loadTicket (userId : UserId) (id : TicketId)
  | loadLegs (id : TicketId)
  | markQuote (quoteId : QuoteId) (status : CashoutStatus)
  /-- the second argument is the ticket the call is about -/
  | lockQuote (quoteId : QuoteId) (ticketId : TicketId)
  | lockTicketOfUser (id : TicketId) (userId : UserId)
  | cashoutWrites (id : TicketId) (row : Ticket) (quoteId : QuoteId) (quote : CashoutQuote)
  | lockPending (id : TicketId)
  | accept (id : TicketId)
  | acceptWithUpdatedOdds (id : TicketId) (currency : Currency)
      (oldPayoutMicro newPayoutMicro : Int)
      (legs : List Db.UpdatedLegOdds)
  | rejectAndRefund (id : TicketId) (user : UserId) (currency : Currency) (reason : String)
      (stakeMicro potentialPayoutMicro : Int)

@[reducible] def Op.Ret : Op → Type
  | .store op => op.Ret
  | .findQuote .. => Option CashoutQuote
  | .loadTicket .. => Option Ticket
  | .loadLegs _ => List LegRow
  | .lockQuote .. => Option CashoutQuote
  | .lockTicketOfUser .. => Option Ticket
  | .lockPending _ => Option Ticket
  | _ => Unit

/-- What a statement answers on the rows `db` when `busy` are the rows of others. -/
def Op.exec (busy : Row → Bool) (db : Db) : (op : Op) → Except Error (Reply Row RowVersion op.Ret)
  | .store op => op.exec busy db
  | .findQuote q id => .ok { ret := (db.cashouts q).filter fun quote => quote.ticketId = id }
  | .loadTicket u id => .ok { ret := (db.tickets id).filter fun t => t.userId = u }
  | .loadLegs id =>
    .ok { ret := (db.selKeys.filter fun k => k.ticketId = id).map fun k =>
            ⟨k, db.sel k, db.marketStatus k.marketId⟩ }
  | .markQuote q status =>
    .ok { ret := (), writes := ((db.cashouts q).map fun quote =>
            RowVersion.cashout q { quote with status := status }).toList }
  | .lockQuote q _ => .ok { ret := db.cashouts q, locks := [.cashout q] }
  | .lockTicketOfUser id u =>
    .ok { ret := (db.tickets id).filter fun t => t.userId = u, locks := [.ticket id] }
  | .cashoutWrites id row q quote =>
    (db.cashoutWrites id row q quote).map fun vs => { ret := (), writes := vs }
  | .lockPending id =>
    .ok { ret := db.lockTicket busy id, locks := ticketLock id (db.lockTicket busy id) }
  | .accept id => .ok { ret := (), writes := db.accept id }
  | .acceptWithUpdatedOdds id c old new legs =>
    (db.acceptWithUpdatedOdds id c old new legs).map fun vs => { ret := (), writes := vs }
  | .rejectAndRefund id u c reason stake payout =>
    (db.rejectAndRefund id u c reason stake payout).map fun vs => { ret := (), writes := vs }

def engine : Engine Db Row RowVersion Error Op Op.Ret where
  exec op busy db := op.exec busy db
  row := RowVersion.row
  put v db := db.put v
  inFailedTx := .wrap "tx" .inFailedTransaction

abbrev Tx := Script Op Op.Ret Error

abbrev call (op : Op) : Tx op.Ret := Script.exec op

/-- A transaction of settlement on this store. -/
def ofStore {α : Type} : Oddzilla.Tx α → Tx α
  | .done a => .done a
  | .fail e => .fail e
  | .call op k => .call (.store op) fun r => ofStore (k r)

/-! ## accept -/

/-- The market side of a leg; an outcome that is not joined is inactive. -/
structure MarketSide where
  publishedOdds : Option ℚ
  probability : Option ℚ
  active : Bool

structure AcceptRequest where
  userId : UserId
  ticketId : TicketId
  quoteId : QuoteId
  expectedOfferMicro : Int
  /-- whether the clock has passed the quote's `expires_at` -/
  expired : Bool
  /-- `resolveConfig` of the ticket's legs -/
  config : Config
  /-- the market side of the legs after the acceptance delay -/
  market : SelKey → MarketSide
  matchEarliestKickoffMs : Option Int
  nowMs : Int

/-- The text of a `NUMERIC(4, 3)`, which is not negative here. -/
def numericText (x : ℚ) : String :=
  let thousandths := ⌊x * 1000⌋.toNat
  toString (thousandths / 1000) ++ "." ++ toString (thousandths / 100 % 10) ++
    toString (thousandths / 10 % 10) ++ toString (thousandths % 10)

def AcceptRequest.leg (r : AcceptRequest) (l : LegRow) : LegInput where
  oddsAtPlacement := l.sel.oddsAtPlacement
  probabilityCurrent := (r.market l.key).probability
  oddsCurrent := (r.market l.key).publishedOdds
  active := (r.market l.key).active && l.marketStatus == 1
  result := l.sel.result
  voidFactor := l.sel.voidFactor.map numericText

def AcceptRequest.input (r : AcceptRequest) (ticket : Ticket) (legs : List LegRow) :
    ComputeInput where
  betType := ticket.betType
  stakeMicro := ticket.stakeMicro
  potentialPayoutMicro := ticket.potentialPayoutMicro
  placedAtMs := ticket.placedAtMs
  matchEarliestKickoffMs := r.matchEarliestKickoffMs
  legs := legs.map r.leg
  config := r.config
  nowMs := r.nowMs

/-- The offer less `ACCEPTANCE_DRIFT_TOLERANCE` of 500 basis points. -/
def driftFloor (offeredMicro : Int) : Int := offeredMicro - (offeredMicro * 500).tdiv 10000

/-- Phase 4: the transaction that pays. -/
def payOut (r : AcceptRequest) : Tx (Option Int) := do
  match ← call (.lockQuote r.quoteId r.ticketId) with
  | none => .fail (.msg "quote_not_found")
  | some quote =>
    if quote.status ≠ .offered then .fail (.msg ("quote_" ++ Db.CashoutStatus.text quote.status))
    else
      match ← call (.lockTicketOfUser r.ticketId r.userId) with
      | none => .fail (.msg "ticket_not_found")
      | some row =>
        call (.cashoutWrites r.ticketId row r.quoteId quote)
        return some quote.offeredMicro

/-- Phases 2 and 3: the acceptance delay, and the price after it. -/
def reprice (r : AcceptRequest) (quote : CashoutQuote) (ticket : Ticket) : Tx (Option Int) := do
  let _ ← call (.loadLegs r.ticketId)
  let legs ← call (.loadLegs r.ticketId)
  match compute (r.input ticket legs) with
  | .error e => .fail e
  | .ok out =>
    if out.reason.isSome ∨ out.offerMicro < driftFloor quote.offeredMicro then
      call (.markQuote r.quoteId .errored)
      return none
    else payOut r

/-- `accept()`; what it has marked on the quote stays when it refuses. -/
def acceptCashout (r : AcceptRequest) : Tx (Option Int) := do
  match ← call (.findQuote r.quoteId r.ticketId) with
  | none => .fail (.msg "quote_not_found")
  | some quote =>
    if quote.userId ≠ r.userId then .fail (.msg "quote_other_user")
    else if quote.status ≠ .offered then .fail (.msg ("quote_" ++ Db.CashoutStatus.text quote.status))
    else if r.expired then
      call (.markQuote r.quoteId .expired)
      return none
    else if quote.offeredMicro ≠ r.expectedOfferMicro then .fail (.msg "quote_amount_mismatch")
    else
      match ← call (.loadTicket r.userId r.ticketId) with
      | none => .fail (.msg "ticket_not_found")
      | some ticket =>
        if ticket.status ≠ .accepted then
          .fail (.msg ("ticket_" ++ Db.TicketStatus.text ticket.status))
        else reprice r quote ticket

/-! ## The bet-delay worker -/

/-- `processTicket`; `decide` is what the worker's `evaluate` says of the row. -/
def processTicket (id : TicketId) (decide : Ticket → EvalResult) : Tx (Option Int) := do
  match ← call (.lockPending id) with
  | none => return none
  | some t =>
    if t.status ≠ .pendingDelay then return none
    else
      match decide t with
      | .reject reason =>
        call (.rejectAndRefund id t.userId t.currency reason t.stakeMicro t.potentialPayoutMicro)
        return none
      | .accept =>
        call (.accept id)
        return none
      | .acceptWithUpdatedOdds newPayoutMicro legs =>
        call (.acceptWithUpdatedOdds id t.currency t.potentialPayoutMicro newPayoutMicro legs)
        return none

/-! ## The parties -/

/-- A transaction of settlement, whose result nobody looks at here. -/
def settlement {α : Type} (p : Oddzilla.Tx α) : Tx (Option Int) :=
  (ofStore p).bind fun _ => .done none

/-- What runs against each other: cashouts, resolutions of bet delays, settlement passes
with their sweeps and cancellations, and rollbacks. -/
inductive Party : Tx (Option Int) → Prop
  | acceptCashout (r : AcceptRequest) : Party (acceptCashout r)
  | processTicket (id : TicketId) (decide : Ticket → EvalResult) : Party (processTicket id decide)
  | settlePhase1 (urn : String) (market : FeedMarket) : Party (settlement (settlePhase1 urn market))
  | settleTicketChunk (ids : List TicketId) : Party (settlement (settleTicketChunk ids))
  | healAndCollect : Party (settlement healAndCollect)
  | marketCancel (urn : String) (market : FeedMarket) : Party (settlement (marketCancel urn market))
  | applyRollback (urn : String) (market : FeedMarket) (type : SettlementType) :
    Party (settlement (applyRollback urn market type))

/-- A transaction in progress. -/
abbrev Running := Active Row RowVersion Op Op.Ret Error (Option Int)

abbrev Floor (ι : Type) := World ι Db Row RowVersion Op Op.Ret Error (Option Int)

end Oddzilla.Cashout
