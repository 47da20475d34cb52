import Oddzilla.Store.Ledger

/-!
# The other writers of tickets and wallets

What the api and the bet-delay worker write for a ticket: `place()` of
`bets/service.ts`, phase 4 of `accept()` in `cashout/service.ts`, the manual void, and `Accept`,
`AcceptWithUpdatedOdds` and `RejectAndRefund` of the bet-delay store.  Each is
the write set of one transaction, computed from the rows it sees; `Error.msg`
is what the api throws.
-/

namespace Oddzilla.Db

variable (db : Db)

/-- `riskzillaCurrency`; the counter of open liability is kept in it alone. -/
def riskzillaCurrency : Currency := "USDC"

/-- `UPDATE riskzilla_bank_state SET open_liability_micro = GREATEST(0, … - $1)`,
for a positive amount in the managed currency. -/
def releaseOpenLiability (currency : Currency) (potentialPayoutMicro : Int) : List RowVersion :=
  if currency = riskzillaCurrency ∧ 0 < potentialPayoutMicro then
    [.openLiability (max 0 (db.openLiabilityMicro - potentialPayoutMicro))]
  else []

/-- `UPDATE riskzilla_bank_state SET open_liability_micro = open_liability_micro + $1` -/
def addOpenLiability (currency : Currency) (micro : Int) : List RowVersion :=
  if currency = riskzillaCurrency then [.openLiability (db.openLiabilityMicro + micro)] else []

/-- One leg of a placement: its key's market and outcome, and the price the
server settled on. -/
structure NewLeg where
  marketId : MarketId
  outcomeId : OutcomeId
  odds : ℚ

def NewLeg.version (id : TicketId) (leg : NewLeg) : RowVersion :=
  .selInsert ⟨id, leg.marketId, leg.outcomeId⟩ { oddsAtPlacement := leg.odds }

def stakeRow (id : TicketId) (row : Ticket) : LedgerRow where
  userId := row.userId
  currency := row.currency
  deltaMicro := -row.stakeMicro
  type := .betStake
  refType := "ticket"
  refId := some id.text
  memo := ""

/-- The writes of `place()` once the request is validated and priced: `row` is
the priced ticket, with status `pending_delay` or `accepted`. -/
def place (id : TicketId) (row : Ticket) (legs : List NewLeg) : Except Error (List RowVersion) :=
  match db.wallets row.userId row.currency with
  | none => .error (.msg "wallet_not_found")
  | some w =>
    if w.balanceMicro - w.lockedMicro < row.stakeMicro then .error (.msg "insufficient_balance")
    else do
      let wallet ← (db.moveWallet row.userId row.currency 0 row.stakeMicro).mapError
        (.wrap "update wallets")
      let ledger ← (db.insertLedgerStrict (stakeRow id row)).mapError (.wrap "insert wallet_ledger")
      return .ticket id row :: legs.map (NewLeg.version id) ++ wallet ++ ledger ++
        db.addOpenLiability row.currency row.potentialPayoutMicro

def accept (id : TicketId) : List RowVersion :=
  db.updateTicket id fun row => { row with status := .accepted }

/-- `UpdatedLegOdds` -/
structure UpdatedLegOdds where
  marketId : MarketId
  outcomeId : OutcomeId
  newOdds : ℚ
  deriving DecidableEq

/-- The counter follows the new payout, in the managed currency only. -/
def repriceOpenLiability (currency : Currency) (delta : Int) : List RowVersion :=
  if currency = riskzillaCurrency ∧ delta ≠ 0 then
    [.openLiability (db.openLiabilityMicro + delta)] else []

/-- The column is `NUMERIC(10, 4)`. -/
def updateLegOdds (id : TicketId) (leg : UpdatedLegOdds) : Except Error (List RowVersion) :=
  if ⟨id, leg.marketId, leg.outcomeId⟩ ∈ db.selKeys then do
    let odds ← (castNumeric 10 4 leg.newOdds).mapError (.wrap "update leg odds")
    return [.sel ⟨id, leg.marketId, leg.outcomeId⟩
      { db.sel ⟨id, leg.marketId, leg.outcomeId⟩ with oddsAtPlacement := odds }]
  else .ok []

/-- The `CHECK` on `potential_payout_micro` refuses a negative payout. -/
def acceptWithUpdatedOdds (id : TicketId) (currency : Currency)
    (oldPayoutMicro newPayoutMicro : Int) (legs : List UpdatedLegOdds) :
    Except Error (List RowVersion) := do
  let rows ← legs.mapM (db.updateLegOdds id)
  if h : 0 ≤ newPayoutMicro then
    return rows.flatten ++
      db.updateTicket id (fun row =>
        { row with
          status := .accepted
          potentialPayoutMicro := newPayoutMicro
          potential_nonneg := h }) ++
      db.repriceOpenLiability currency (newPayoutMicro - oldPayoutMicro)
  else .error (.wrap "accept ticket with new odds" (.checkViolation "potential_payout_micro"))

variable {db} in
theorem updateLegOdds_ok {id : TicketId} {leg : UpdatedLegOdds} {vs : List RowVersion}
    (h : db.updateLegOdds id leg = .ok vs) :
    (⟨id, leg.marketId, leg.outcomeId⟩ ∉ db.selKeys ∧ vs = []) ∨
      ∃ odds, castNumeric 10 4 leg.newOdds = .ok odds ∧
        vs = [.sel ⟨id, leg.marketId, leg.outcomeId⟩
          { db.sel ⟨id, leg.marketId, leg.outcomeId⟩ with oddsAtPlacement := odds }] := by
  unfold updateLegOdds at h
  split at h
  · obtain ⟨odds, hodds, h⟩ := bind_eq_ok.mp h
    cases h
    exact .inr ⟨odds, mapError_eq_ok.mp hodds, rfl⟩
  · next hkey =>
    cases h
    exact .inl ⟨hkey, rfl⟩

def refundRow (id : TicketId) (userId : UserId) (currency : Currency) (reason : String)
    (stakeMicro : Int) : LedgerRow where
  userId := userId
  currency := currency
  deltaMicro := stakeMicro
  type := .betRefund
  refType := "ticket"
  refId := some id.text
  memo := reason

def rejectAndRefund (id : TicketId) (userId : UserId) (currency : Currency) (reason : String)
    (stakeMicro potentialPayoutMicro : Int) : Except Error (List RowVersion) := do
  let ticket := db.updateTicket id fun row => { row with status := .rejected }
  let wallet ← (db.moveWallet userId currency 0 (-stakeMicro)).mapError (.wrap "unlock stake")
  return ticket ++ wallet ++ db.insertLedger (refundRow id userId currency reason stakeMicro) ++
    db.releaseOpenLiability currency potentialPayoutMicro

/-- The ledger row of a cashout: the offer less the stake. -/
def cashoutRow (id : TicketId) (row : Ticket) (offer : Int) : LedgerRow where
  userId := row.userId
  currency := row.currency
  deltaMicro := offer - row.stakeMicro
  type := .cashout
  refType := "ticket"
  refId := some id.text
  memo := "cashout offer " ++ toString offer ++ " for stake " ++ toString row.stakeMicro

/-- `cashout_status`, as the database writes it. -/
def CashoutStatus.text : CashoutStatus → String
  | .offered => "offered"
  | .accepted => "accepted"
  | .declined => "declined"
  | .expired => "expired"
  | .errored => "errored"
  | .unavailable => "unavailable"

/-- `ticket_status`, as the database writes it. -/
def TicketStatus.text : TicketStatus → String
  | .pendingDelay => "pending_delay"
  | .accepted => "accepted"
  | .rejected => "rejected"
  | .settled => "settled"
  | .voided => "voided"
  | .cashedOut => "cashed_out"

/-- Phase 4 of `accept()`, from the two rows it has locked; the ticket was looked
up by its owner. -/
def cashoutWrites (id : TicketId) (row : Ticket) (quoteId : QuoteId) (quote : CashoutQuote) :
    Except Error (List RowVersion) :=
  if row.status ≠ .accepted then .error (.msg ("ticket_" ++ TicketStatus.text row.status))
  else if (db.wallets row.userId row.currency).isNone then .error (.msg "wallet_not_found")
  else do
    let wallet ← (db.moveWallet row.userId row.currency (quote.offeredMicro - row.stakeMicro)
      (-row.stakeMicro)).mapError (.wrap "update wallets")
    let ledger ← (db.insertLedgerStrict (cashoutRow id row quote.offeredMicro)).mapError
      (.wrap "insert wallet_ledger")
    return wallet ++ ledger ++
      [.ticket id { row with status := .cashedOut, actualPayoutMicro := some quote.offeredMicro }] ++
      db.releaseOpenLiability row.currency row.potentialPayoutMicro ++
      [.cashout quoteId { quote with status := .accepted, payoutMicro := some quote.offeredMicro }]

/-- `POST /admin/tickets/:id/void` on the row it has locked. -/
def voidWrites (id : TicketId) (row : Ticket) (reason : String) : Except Error (List RowVersion) :=
  if row.status ≠ .accepted then
    .error (.msg ("cannot_void_status_" ++ TicketStatus.text row.status))
  else do
    let wallet ← (db.moveWallet row.userId row.currency 0 (-row.stakeMicro)).mapError
      (.wrap "update wallets")
    return [.ticket id { row with status := .voided, actualPayoutMicro := some row.stakeMicro }] ++
      wallet ++
      db.insertLedger (refundRow id row.userId row.currency ("admin_void:" ++ reason) row.stakeMicro) ++
      db.releaseOpenLiability row.currency row.potentialPayoutMicro

def adminVoid (id : TicketId) (reason : String) : Except Error (List RowVersion) :=
  match db.tickets id with
  | none => .error (.msg "ticket_not_found")
  | some row => db.voidWrites id row reason

end Oddzilla.Db
