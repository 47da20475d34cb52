import Oddzilla.Settler.Payout
import Oddzilla.Store.Engine

/-!
# The settler's transactions

`settler.go`, one script per transaction.  An error returned by a script rolls
its transaction back; a best-effort step is `logged`: its error is dropped, but
the statement that failed has still been part of the transaction.
-/

namespace Oddzilla

open Txn

def onlyIf (b : Bool) (p : Tx Unit) : Tx Unit := if b then p else return ()

/-! ## Settling one ticket -/

/-- `UnresolvedCountIn` -/
def unresolvedCountIn (sels : List Selection) : Nat := sels.countP fun s => s.result.isNone

/-- `BigWinFloorMicro`; the padded demo currency takes the default. -/
def bigWinFloorMicro (currency : Currency) : Int :=
  if currency = "USDC" then 50000000 else if currency = "OZ" then 25000000 else 0

/-- The best-effort calls after `SettleTicket`, in order. -/
def settleSideOps (t : TicketForSettle) (payout : Int) : List Op :=
  (if t.row.stakeMicro < payout then
    [.side .betWonPush t.id, .side .betWonBell t.id] ++
      if bigWinFloorMicro t.row.currency ≤ payout - t.row.stakeMicro then
        [.side .bigWinFanout t.id] else []
    else []) ++
  [.updateRiskzillaBankOnSettle t.row.currency t.row.potentialPayoutMicro,
    .writeCommunityProjection t.id, .side .analysisProjection t.id, .side .analysisWinBonus t.id,
    .side .achievements t.id]

/-- Calls whose errors are logged and dropped. -/
def logAll : List Op → Tx Unit
  | [] => return ()
  | op :: ops => do
    (call op).logged
    logAll ops

def maybeSettleTicket (id : TicketId) (sourceTag : String) : Tx Bool := do
  match ← call (.loadTicketWithSelections id) with
  -- locked by another worker, or no such ticket
  | none => return false
  | some (t, sels) =>
    if t.row.status ≠ .accepted ∨ 0 < unresolvedCountIn sels then return false
    else
      match computePayout t.row sels with
      | .error e => .fail e
      | .ok (payout, ledgerType) =>
        call (.settleTicket t payout ledgerType sourceTag)
        logAll (settleSideOps t payout)
        return true

/-- `settleTicketChunk`: one transaction for all ids; the first error ends it. -/
def settleTicketChunk : List TicketId → Tx (List TicketId)
  | [] => return []
  | id :: rest => do
    let didSettle ← maybeSettleTicket id "bet_settlement"
    let settled ← settleTicketChunk rest
    return if didSettle then id :: settled else settled

/-! ## bet_settlement -/

/-- The outcome cascade of a fresh settlement. -/
def applyOutcomes (marketId : MarketId) : List FeedOutcome → Tx Unit
  | [] => return ()
  | o :: rest => do
    let result := mapOutcomeResult o.result o.voidFactor
    call (.updateOutcomeResult marketId o.id (some result) o.voidFactor)
    call (.applyOutcomeToSelections marketId o.id (some result) o.voidFactor)
    applyOutcomes marketId rest

/-- What phase 1 hands to phase 2. -/
structure SettlePhase where
  marketId : MarketId
  inserted : Bool
  tickets : List TicketId
  deriving DecidableEq

/-- The writes of a settlement that is not a replay. -/
def freshSettle (marketId : MarketId) (market : FeedMarket) : Tx Unit := do
  call (.setMarketStatus marketId (-3))
  applyOutcomes marketId market.outcomes

def settlePhase1 (eventUrn : String) (market : FeedMarket) : Tx (Option SettlePhase) := do
  match ← call (.findMarket (marketRef eventUrn market)) with
  | none => return none
  | some marketId =>
    call (.lockMarket marketId)
    let inserted ← call (.insertIfNew (settlementKey .settle eventUrn market marketId))
    onlyIf inserted (freshSettle marketId market)
    -- also on a replay: phase 2 picks up tickets a crash has stranded
    let tickets ← call (.affectedTicketsForMarket marketId)
    return some ⟨marketId, inserted, tickets⟩

/-! ## bet_cancel -/

/-- `reverseSettledForCancel`, and with another reason `reverseTicket` of the
rollbacks: both reverse a settled ticket and mirror it onto the projections. -/
def reverseSettled (id : TicketId) (reason : String) : Tx Bool := do
  match ← call (.loadTicketForSettle id) with
  | none => return false
  | some t =>
    if t.row.status ≠ .settled then return false
    else
      let prior ← call (.actualPayout id)
      call (.reverseSettledTicket id t.row.userId t.row.currency reason t.row.stakeMicro prior)
      logAll [.updateRiskzillaBankOnReverse t.row.currency t.row.potentialPayoutMicro,
        .writeCommunityProjection id, .side .analysisReversal id]
      return true

def reverseSettledForCancel (id : TicketId) : Tx Bool := reverseSettled id "bet_cancel"

def reverseTicket (id : TicketId) (reason : SettlementType) : Tx Bool :=
  reverseSettled id reason.text

def cancelTickets (marketId : MarketId) : List TicketId → Tx (List TicketId)
  | [] => return []
  | id :: rest => do
    let _ ← reverseSettledForCancel id
    -- cleared whatever the status, so that the void below meets no resolved leg
    call (.reverseSelectionsForTicketOnMarket id marketId)
    call (.voidSelectionsForTicketOnMarket id marketId)
    let didSettle ← maybeSettleTicket id "bet_cancel"
    let settled ← cancelTickets marketId rest
    return if didSettle then id :: settled else settled

def applyCancelToTickets (marketId : MarketId) (startMs endMs : Option Int) :
    Tx (List TicketId) := do
  let tickets ← call (.affectedTicketsForMarketInWindow marketId startMs endMs)
  cancelTickets marketId tickets

def marketCancel (eventUrn : String) (market : FeedMarket) : Tx (List TicketId) := do
  match ← call (.findMarket (marketRef eventUrn market)) with
  | none => return []
  | some marketId =>
    let inserted ← call (.insertIfNew (settlementKey .cancel eventUrn market marketId))
    if inserted then
      -- an end_time keeps the market active
      onlyIf market.endTime.isNone (call (.setMarketStatus marketId (-4)))
      applyCancelToTickets marketId market.startTime market.endTime
    else return []

/-! ## rollback_bet_settlement, rollback_bet_cancel -/

/-- The chunks of `rollbackBatchSize` share one transaction, so they are one
loop. -/
def reverseTickets (reason : SettlementType) : List TicketId → Tx (List TicketId)
  | [] => return []
  | id :: rest => do
    let ok ← reverseTicket id reason
    let reversed ← reverseTickets reason rest
    return if ok then id :: reversed else reversed

def applyRollback (eventUrn : String) (market : FeedMarket) (rollbackType : SettlementType) :
    Tx (List TicketId) := do
  match ← call (.findMarket (marketRef eventUrn market)) with
  | none => return []
  | some marketId =>
    let inserted ← call (.insertIfNew (settlementKey rollbackType eventUrn market marketId))
    if inserted then
      call (.reverseSelectionsForMarket marketId)
      call (.setMarketStatus marketId 1)
      let tickets ← call (.affectedTicketsForMarket marketId)
      let reversed ← reverseTickets rollbackType tickets
      call (.insertAdminAudit ("settlement." ++ rollbackType.text) marketId)
      return reversed
    else return []

/-! ## Reconciliation and cashout -/

/-- The first transaction of `ReconcileStranded`. -/
def healAndCollect : Tx (Nat × List TicketId) := do
  let healed ← call .healStrandedSelections
  let candidates ← call .settleReadyAcceptedTickets
  return (healed, candidates)

/-- Phase 4 of the cashout's `accept()`. -/
def cashoutAccept (userId : UserId) (id : TicketId) (quoteId : QuoteId) : Tx Unit := do
  match ← call (.lockQuote quoteId) with
  | none => .fail (.msg "quote_not_found")
  | some quote =>
    if quote.status ≠ .offered then .fail (.msg ("quote_" ++ Db.CashoutStatus.text quote.status))
    else
      match ← call (.lockTicketOfUser id userId) with
      | none => .fail (.msg "ticket_not_found")
      | some row => call (.cashoutWrites id row quoteId quote)

/-! ## Handlers -/

/-- `settleTicketChunkSize` -/
def settleTicketChunkSize : Nat := 200

/-- Cut a list into chunks of `n`. -/
def chunksOf {α : Type} (n : Nat) (l : List α) : List (List α) :=
  if _h : l = [] ∨ n = 0 then (if l = [] then [] else [l])
  else l.take n :: chunksOf n (l.drop n)
termination_by l.length
decreasing_by
  have : l.length ≠ 0 := fun h0 => _h (.inl (List.length_eq_zero_iff.mp h0))
  simp only [List.length_drop]
  omega

/-- `settleTicketsSequential`: chunk after chunk, committed one by one; a failed
chunk ends it. -/
def settleChunks (env : Env Row Op Error) : List (List TicketId) → Db →
    Except Error (List TicketId) × Db
  | [], db => (.ok [], db)
  | chunk :: rest, db =>
    match engine.transact env (settleTicketChunk chunk) db with
    | (.error e, db') => (.error e, db')
    | (.ok settled, db') =>
      match settleChunks env rest db' with
      | (.error e, db'') => (.error e, db'')
      | (.ok more, db'') => (.ok (settled ++ more), db'')

def settleTicketsSequential (env : Env Row Op Error) (chunkSize : Nat) (tickets : List TicketId)
    (db : Db) : Except Error (List TicketId) × Db :=
  settleChunks env (chunksOf chunkSize tickets) db

/-- `applyMarketSettle`, with phase 2 run by one worker. -/
def applyMarketSettle (env : Env Row Op Error) (eventUrn : String) (market : FeedMarket)
    (db : Db) : Except Error (List TicketId) × Db :=
  match engine.transact env (settlePhase1 eventUrn market) db with
  | (.error e, db') => (.error e, db')
  | (.ok none, db') => (.ok [], db')
  | (.ok (some phase), db') =>
    settleTicketsSequential env settleTicketChunkSize phase.tickets db'

def applyMarketCancel (env : Env Row Op Error) (eventUrn : String) (market : FeedMarket)
    (db : Db) : Except Error (List TicketId) × Db :=
  engine.transact env (marketCancel eventUrn market) db

def applyMarketRollback (env : Env Row Op Error) (eventUrn : String) (market : FeedMarket)
    (rollbackType : SettlementType) (db : Db) : Except Error (List TicketId) × Db :=
  engine.transact env (applyRollback eventUrn market rollbackType) db

/-- One `<market>` of a settlement message. -/
structure FeedMessage where
  type : SettlementType
  market : FeedMarket
  deriving DecidableEq, Repr

/-- `Handle`, for one market of the message. -/
def handle (env : Env Row Op Error) (eventUrn : String) (msg : FeedMessage) (db : Db) :
    Except Error (List TicketId) × Db :=
  match msg.type with
  | .settle => applyMarketSettle env eventUrn msg.market db
  | .cancel => applyMarketCancel env eventUrn msg.market db
  | .rollbackSettle => applyMarketRollback env eventUrn msg.market .rollbackSettle db
  | .rollbackCancel => applyMarketRollback env eventUrn msg.market .rollbackCancel db

/-- The markets of one message, one after another.  The error of a market is
counted and logged, and the next market has its turn. -/
def handleMarkets (env : Env Row Op Error) (eventUrn : String) (type : SettlementType) :
    List FeedMarket → Db → Db
  | [], db => db
  | market :: rest, db =>
    handleMarkets env eventUrn type rest (handle env eventUrn ⟨type, market⟩ db).2

/-- `Handle`: it returns nil whatever became of the markets. -/
def handleMessage (env : Env Row Op Error) (eventUrn : String) (type : SettlementType)
    (markets : List FeedMarket) (db : Db) : Except Error Unit × Db :=
  (.ok (), handleMarkets env eventUrn type markets db)

/-- `ReconcileStranded`, with its settling run by one worker. -/
def reconcileStranded (env : Env Row Op Error) (db : Db) : Except Error (List TicketId) × Db :=
  match engine.transact env healAndCollect db with
  | (.error e, db') => (.error e, db')
  | (.ok (_, candidates), db') =>
    settleTicketsSequential env settleTicketChunkSize candidates db'

end Oddzilla
