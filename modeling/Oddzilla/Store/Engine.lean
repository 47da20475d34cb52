import Oddzilla.Feed.Messages
import Oddzilla.Store.TicketWrites

/-!
# The store's functions as calls of a transaction

Each function of `store.go` that the settler calls with its transaction, and the
three statements of the cashout transaction, is one `Op`.  `engine` says what an
op answers from the rows its transaction sees, which row versions it writes and
which rows it locks; `Txn` runs scripts of ops, alone or interleaved.

`FOR UPDATE SKIP LOCKED` is the one place where an op looks at other
transactions' locks: a busy ticket row reads as no row.
-/

namespace Oddzilla

open Txn

namespace Db

variable (db : Db)

/-! ## Selections and markets -/

/-- The selections of a ticket, in scan order. -/
def selectionsOf (id : TicketId) : List Selection :=
  (db.selKeys.filter fun k => k.ticketId = id).map db.sel

/-- `UPDATE ticket_selections SET … WHERE …` -/
def updateSels (p : SelKey → Bool) (f : SelKey → Selection → Selection) : List RowVersion :=
  (db.selKeys.filter p).map fun k => .sel k (f k (db.sel k))

def resolveSel (result : OutcomeResult) (vf : Option ℚ) (s : Selection) : Selection :=
  { s with result := some result, voidFactor := vf }

def clearSel (s : Selection) : Selection := { s with result := none, voidFactor := none }

def unresolved (k : SelKey) : Bool := (db.sel k).result.isNone

def affectedTicketsForMarket (m : MarketId) : List TicketId :=
  ((db.selKeys.filter fun k => k.marketId = m).map (·.ticketId)).dedup

/-- The `placed_at` filter; an absent bound does not restrict. -/
def inWindow (startMs endMs : Option Int) (placedAtMs : Int) : Bool :=
  startMs.all (· ≤ placedAtMs) && endMs.all (placedAtMs ≤ ·)

def ticketInWindow (startMs endMs : Option Int) (id : TicketId) : Bool :=
  (db.tickets id).any fun t => inWindow startMs endMs t.placedAtMs

def affectedTicketsForMarketInWindow (m : MarketId) (startMs endMs : Option Int) :
    List TicketId :=
  ((db.selKeys.filter fun k =>
    k.marketId = m && db.ticketInWindow startMs endMs k.ticketId).map (·.ticketId)).dedup

def hasStatus (id : TicketId) (s : TicketStatus) : Bool :=
  (db.tickets id).any fun t => t.status == s

/-- The row `HealStrandedSelections` joins to a selection: the outcome's stored
result, on a market that is settled or cancelled. -/
def healSource (k : SelKey) : Option (OutcomeResult × Option ℚ) :=
  if db.marketStatus k.marketId = -3 ∨ db.marketStatus k.marketId = -4 then
    (db.outcomes k.marketId k.outcomeId).bind fun o => o.result.map fun r => (r, o.voidFactor)
  else none

def healable (k : SelKey) : Bool :=
  db.unresolved k && (db.healSource k).isSome && db.hasStatus k.ticketId .accepted

def healSel (k : SelKey) (s : Selection) : Selection :=
  match db.healSource k with
  | some (r, vf) => resolveSel r vf s
  | none => s

def settleReady (id : TicketId) : Bool :=
  db.hasStatus id .accepted && db.selKeys.all fun k => k.ticketId ≠ id || !db.unresolved k

def settleReadyAcceptedTickets : List TicketId :=
  ((db.selKeys.map (·.ticketId)).dedup).filter db.settleReady

/-- An empty result means a pure void; `mapOutcomeResult` never returns one. -/
def outcomeUpdate (result : Option OutcomeResult) (voidFactor : String) :
    Except PgError (OutcomeResult × Option ℚ) :=
  match result with
  | some r => (castVoidFactor voidFactor).map fun vf => (r, vf)
  | none => .ok (.void, some 1)

def updateOutcomeResult (m : MarketId) (o : OutcomeId) (result : Option OutcomeResult)
    (voidFactor : String) : Except Error (List RowVersion) := do
  let (r, vf) ← (outcomeUpdate result voidFactor).mapError (.wrap "update outcome result")
  return match db.outcomes m o with
    | none => []
    | some _ => [.outcome m o { result := some r, voidFactor := vf }]

def applyOutcomeToSelections (m : MarketId) (o : OutcomeId) (result : Option OutcomeResult)
    (voidFactor : String) : Except Error (List RowVersion) := do
  let (r, vf) ← (outcomeUpdate result voidFactor).mapError (.wrap "apply outcome to selections")
  return db.updateSels (fun k => k.marketId = m && k.outcomeId = o && db.unresolved k)
    fun _ => resolveSel r vf

/-! ## Projections -/

/-- `EXP(SUM(LN(odds)))::numeric(10, 4)` over the ticket's legs. -/
def totalOdds (id : TicketId) : Except PgError ℚ :=
  if (db.selectionsOf id).any fun s => s.oddsAtPlacement ≤ 0 then .error .logarithmOfNonPositive
  else castNumeric 10 4 ((db.selectionsOf id).map (·.oddsAtPlacement)).prod

def writeCommunityProjection (id : TicketId) : Except Error (List RowVersion) :=
  if db.selectionsOf id = [] then .ok []
  else do
    let _ ← (db.totalOdds id).mapError (.wrap "write community projection")
    return [.side .communityProjection id]

end Db

/-! ## Calls -/

inductive Op
  | findMarket (ref : MarketRef)
  | lockMarket (id : MarketId)
  | insertIfNew (key : SettlementKey)
  | setMarketStatus (id : MarketId) (status : Int)
  | updateOutcomeResult (m : MarketId) (o : OutcomeId) (result : Option OutcomeResult)
      (voidFactor : String)
  | applyOutcomeToSelections (m : MarketId) (o : OutcomeId) (result : Option OutcomeResult)
      (voidFactor : String)
  | affectedTicketsForMarket (m : MarketId)
  | affectedTicketsForMarketInWindow (m : MarketId) (startMs endMs : Option Int)
  | healStrandedSelections
  | settleReadyAcceptedTickets
  | loadTicketForSettle (id : TicketId)
  | loadTicketWithSelections (id : TicketId)
  | actualPayout (id : TicketId)
  | settleTicket (t : TicketForSettle) (payoutMicro : Int) (ledgerType : CreditType)
      (memo : String)
  | reverseSettledTicket (id : TicketId) (userId : UserId) (currency : Currency) (reason : String)
      (stakeMicro priorPayoutMicro : Int)
  | reverseSelectionsForMarket (m : MarketId)
  | reverseSelectionsForTicketOnMarket (id : TicketId) (m : MarketId)
  | voidSelectionsForTicketOnMarket (id : TicketId) (m : MarketId)
  | updateRiskzillaBankOnSettle (currency : Currency) (potentialPayoutMicro : Int)
  | updateRiskzillaBankOnReverse (currency : Currency) (potentialPayoutMicro : Int)
  | writeCommunityProjection (id : TicketId)
  | side (write : SideWrite) (id : TicketId)
  | insertAdminAudit (action : String) (m : MarketId)
  | lockQuote (id : QuoteId)
  | lockTicketOfUser (id : TicketId) (userId : UserId)
  | cashoutWrites (id : TicketId) (row : Ticket) (quoteId : QuoteId) (quote : CashoutQuote)

@[reducible] def Op.Ret : Op → Type
  | .findMarket _ => Option MarketId
  | .insertIfNew _ => Bool
  | .affectedTicketsForMarket _ => List TicketId
  | .affectedTicketsForMarketInWindow .. => List TicketId
  | .healStrandedSelections => Nat
  | .settleReadyAcceptedTickets => List TicketId
  | .loadTicketForSettle _ => Option TicketForSettle
  | .loadTicketWithSelections _ => Option (TicketForSettle × List Selection)
  | .actualPayout _ => Int
  | .lockQuote _ => Option CashoutQuote
  | .lockTicketOfUser .. => Option Ticket
  | _ => Unit

/-- `SELECT … WHERE id = $1 FOR UPDATE SKIP LOCKED`: the row, unless another
transaction holds it. -/
def Db.lockTicket (db : Db) (busy : Row → Bool) (id : TicketId) : Option Ticket :=
  if busy (.ticket id) then none else db.tickets id

def ticketLock (id : TicketId) : Option Ticket → List Row
  | some _ => [.ticket id]
  | none => []

/-- What an op answers on the rows `db` when `busy` are the rows of others. -/
def Op.exec (busy : Row → Bool) (db : Db) :
    (op : Op) → Except Error (Reply Row RowVersion op.Ret)
  | .findMarket ref => .ok { ret := db.marketOf ref }
  | .lockMarket id => .ok { ret := (), locks := [.advisory id] }
  | .insertIfNew key =>
    .ok (if key ∈ db.settlements then { ret := false }
      else { ret := true, writes := [.settlement key] })
  | .setMarketStatus id status => .ok { ret := (), writes := [.marketStatus id status] }
  | .updateOutcomeResult m o result vf =>
    (db.updateOutcomeResult m o result vf).map fun vs => { ret := (), writes := vs }
  | .applyOutcomeToSelections m o result vf =>
    (db.applyOutcomeToSelections m o result vf).map fun vs => { ret := (), writes := vs }
  | .affectedTicketsForMarket m => .ok { ret := db.affectedTicketsForMarket m }
  | .affectedTicketsForMarketInWindow m s e =>
    .ok { ret := db.affectedTicketsForMarketInWindow m s e }
  | .healStrandedSelections =>
    .ok { ret := (db.selKeys.filter db.healable).length
          writes := db.updateSels db.healable db.healSel }
  | .settleReadyAcceptedTickets => .ok { ret := db.settleReadyAcceptedTickets }
  | .loadTicketForSettle id =>
    .ok { ret := (db.lockTicket busy id).map fun row => ⟨id, row⟩
          locks := ticketLock id (db.lockTicket busy id) }
  | .loadTicketWithSelections id =>
    .ok { ret := (db.lockTicket busy id).map fun row => (⟨id, row⟩, db.selectionsOf id)
          locks := ticketLock id (db.lockTicket busy id) }
  | .actualPayout id =>
    .ok { ret := ((db.tickets id).bind (·.actualPayoutMicro)).getD 0 }
  | .settleTicket t p ty memo =>
    (db.settleTicket t p ty memo).map fun vs => { ret := (), writes := vs }
  | .reverseSettledTicket id u c reason stake prior =>
    (db.reverseSettledTicket id u c reason stake prior).map fun vs => { ret := (), writes := vs }
  | .reverseSelectionsForMarket m =>
    .ok { ret := (), writes := db.updateSels (fun k => k.marketId = m) fun _ => Db.clearSel }
  | .reverseSelectionsForTicketOnMarket id m =>
    .ok { ret := (), writes := db.updateSels (fun k => k.ticketId = id && k.marketId = m)
            fun _ => Db.clearSel }
  | .voidSelectionsForTicketOnMarket id m =>
    .ok { ret := ()
          writes := db.updateSels
            (fun k => k.ticketId = id && k.marketId = m && db.unresolved k)
            fun _ => Db.resolveSel .void (some 1) }
  | .updateRiskzillaBankOnSettle c p => .ok { ret := (), writes := db.releaseOpenLiability c p }
  | .updateRiskzillaBankOnReverse c p =>
    .ok { ret := (), writes := if 0 < p then db.addOpenLiability c p else [] }
  | .writeCommunityProjection id =>
    (db.writeCommunityProjection id).map fun vs => { ret := (), writes := vs }
  | .side w id => .ok { ret := (), writes := [.side w id] }
  | .insertAdminAudit action m => .ok { ret := (), writes := [.audit action m] }
  | .lockQuote id =>
    .ok { ret := db.cashouts id, locks := [.cashout id] }
  | .lockTicketOfUser id u =>
    .ok { ret := (db.tickets id).filter fun t => t.userId = u, locks := [.ticket id] }
  | .cashoutWrites id row q quote =>
    (db.cashoutWrites id row q quote).map fun vs => { ret := (), writes := vs }

def engine : Engine Db Row RowVersion Error Op Op.Ret where
  exec op busy db := op.exec busy db
  row := RowVersion.row
  put v db := db.put v
  inFailedTx := .wrap "tx" .inFailedTransaction

theorem engine_putAll (vs : List RowVersion) (db : Db) : engine.putAll vs db = db.putAll vs := rfl

/-- A transaction body of the services. -/
abbrev Tx := Script Op Op.Ret Error

/-- One call of the store. -/
abbrev call (op : Op) : Tx op.Ret := Script.exec op

end Oddzilla
