import Oddzilla.Api.Riskzilla
import Oddzilla.BetDelay.Worker
import Oddzilla.Lib.ReadCommitted

/-!
# Placing a bet

`place()` of `bets/service.ts` with `evaluate`, `evaluateVelocity`,
`commitAccepted` and `recordRejection` of RiskZilla, and the bet-delay worker's
`processTicket`, statement by statement.  The request is the one that the
validation and pricing between the wallet lock and RiskZilla have produced; those
statements only read, and a call that they refuse is a transaction that ends
without committing.
-/

namespace Oddzilla.Placement

open Txn Riskzilla

/-! ## Tables -/

/-- The columns of `users` that `place()` reads. -/
structure UserRow where
  status : String
  globalLimitMicro : Int
  riskScore : ℚ

/-- The tables of the settlement store, with those that only placement uses. -/
structure Store where
  db : Db
  users : UserId → Option UserRow
  /-- the owners of USDC wallets -/
  bettors : List UserId
  /-- the unique index on `tickets.idempotency_key` -/
  idempotency : String → Option TicketId
  /-- `riskzilla_bank_state.bank_limit_micro` -/
  bankLimitMicro : Int
  /-- the accepted decisions of `riskzilla_event_log` -/
  accepted : List (TicketId × BankTerms)
  /-- the rejections of `riskzilla_event_log` -/
  rejections : List (UserId × Rejection)

inductive Version
  | base (v : RowVersion)
  | idempotency (key : String) (id : TicketId)
  | accepted (id : TicketId) (terms : BankTerms)
  | rejection (eventId : Nat) (user : UserId) (why : Rejection)

inductive Lock
  | base (r : Row)
  | user (id : UserId)
  | idempotency (key : String)
  | accepted (id : TicketId)
  | rejection (eventId : Nat)
  /-- `hashtext('riskzilla:bank_state')` -/
  | bankState
  deriving DecidableEq

def Version.lock : Version → Lock
  | base v => .base v.row
  | idempotency key _ => .idempotency key
  | accepted id _ => .accepted id
  | rejection e _ _ => .rejection e

def Store.put : Version → Store → Store
  | .base v, s => { s with db := s.db.put v }
  | .idempotency key id, s => { s with idempotency := Function.update s.idempotency key (some id) }
  | .accepted id terms, s => { s with accepted := s.accepted ++ [(id, terms)] }
  | .rejection _ user why, s => { s with rejections := s.rejections ++ [(user, why)] }

/-! ## Statements -/

inductive Op
  | findByIdempotencyKey (key : String)
  | lockUser (id : UserId)
  | lockWallet (user : UserId) (currency : Currency)
  | recent (user : UserId) (nowMs : Int)
  | lockBankState
  | bankState
  | sumUserBalances
  | bucketRows (matchIds : List Nat) (user : Option UserId)
  | marketSumRows (matchIds : List Nat) (user : Option UserId)
  | insertTicket (key : String) (id : TicketId) (row : Ticket)
  | insertSelections (id : TicketId) (legs : List Db.NewLeg)
  | lockStake (user : UserId) (currency : Currency) (stakeMicro : Int)
  | insertLedger (row : LedgerRow)
  | commitAccepted (id : TicketId) (potentialPayoutMicro : Int) (terms : BankTerms)
  | recordRejection (eventId : Nat) (user : UserId) (why : Rejection)
  | lockTicket (id : TicketId)
  | accept (id : TicketId)
  | acceptWithUpdatedOdds (id : TicketId) (currency : Currency)
      (oldPayoutMicro newPayoutMicro : Int)
      (legs : List Db.UpdatedLegOdds)
  | rejectAndRefund (id : TicketId) (user : UserId) (currency : Currency) (reason : String)
      (stakeMicro potentialPayoutMicro : Int)

@[reducible] def Op.Ret : Op → Type
  | .findByIdempotencyKey _ => Option (TicketId × UserId)
  | .lockUser _ => Option UserRow
  | .lockWallet .. => Option Wallet
  | .recent .. => Nat × List Nat
  | .bankState => Int × Int
  | .sumUserBalances => Int
  | .bucketRows .. => MarketId → OutcomeId → Int × Int
  | .marketSumRows .. => MarketId → Int
  | .insertTicket .. => Bool
  | .lockTicket _ => Option Ticket
  | _ => Unit

namespace Store

variable (s : Store)

def findByIdempotencyKey (key : String) : Option (TicketId × UserId) :=
  (s.idempotency key).bind fun id => (s.db.tickets id).map fun t => (id, t.userId)

/-- `SUM(balance_micro - locked_micro)` over the USDC wallets. -/
def sumUserBalances : Int :=
  (s.bettors.map fun u =>
    match s.db.wallets u Db.riskzillaCurrency with
    | some w => w.balanceMicro - w.lockedMicro
    | none => 0).sum

/-- `riskzilla_bank_state_open_nonneg` -/
def checkBank (context : String) (vs : List RowVersion) : Except Error (List Version) :=
  if vs.any fun v => match v with | .openLiability x => decide (x < 0) | _ => false then
    .error (.wrap context (.checkViolation "riskzilla_bank_state_open_nonneg"))
  else .ok (vs.map .base)

end Store

/-- What a statement answers on the rows `s` when `busy` are the rows of others. -/
def Op.exec (cfg : Config) (busy : Lock → Bool) (s : Store) :
    (op : Op) → Except Error (Reply Lock Version op.Ret)
  | .findByIdempotencyKey key => .ok { ret := s.findByIdempotencyKey key }
  | .lockUser id => .ok { ret := s.users id, locks := [.user id] }
  | .lockWallet u c => .ok { ret := s.db.wallets u c, locks := [.base (.wallet u c)] }
  | .recent u now => .ok { ret := Riskzilla.recent cfg s.db u now }
  | .lockBankState => .ok { ret := (), locks := [.bankState] }
  | .bankState => .ok { ret := (s.bankLimitMicro, s.db.openLiabilityMicro) }
  | .sumUserBalances => .ok { ret := s.sumUserBalances }
  | .bucketRows ms u => .ok { ret := bucketRow cfg s.db ms u }
  | .marketSumRows ms u => .ok { ret := marketSumRow cfg s.db ms u }
  | .insertTicket key id row =>
    if (s.idempotency key).isSome then .ok { ret := false }
    else if (s.db.tickets id).isSome then
      .error (.wrap "insert tickets" (.uniqueViolation "tickets_pkey"))
    else .ok { ret := true, writes := [.idempotency key id, .base (.ticket id row)] }
  | .insertSelections id legs =>
    .ok { ret := (), writes := legs.map fun leg => .base (leg.version id) }
  | .lockStake u c stake =>
    ((s.db.moveWallet u c 0 stake).mapError (.wrap "update wallets")).map fun vs =>
      { ret := (), writes := vs.map .base }
  | .insertLedger row =>
    ((s.db.insertLedgerStrict row).mapError (.wrap "insert wallet_ledger")).map fun vs =>
      { ret := (), writes := vs.map .base }
  | .commitAccepted id payout terms =>
    (Store.checkBank "update riskzilla_bank_state"
      [.openLiability (s.db.openLiabilityMicro + payout)]).map fun vs =>
        { ret := (), writes := vs ++ [.accepted id terms] }
  | .recordRejection e u why => .ok { ret := (), writes := [.rejection e u why] }
  | .lockTicket id =>
    let row := if busy (.base (.ticket id)) then none else s.db.tickets id
    .ok { ret := row, locks := (ticketLock id row).map .base }
  | .accept id => .ok { ret := (), writes := (s.db.accept id).map .base }
  | .acceptWithUpdatedOdds id c old new legs => do
    let vs ← s.db.acceptWithUpdatedOdds id c old new legs
    return { ret := (), writes := ← Store.checkBank "bank state delta" vs }
  | .rejectAndRefund id u c reason stake payout =>
    (s.db.rejectAndRefund id u c reason stake payout).map fun vs =>
      { ret := (), writes := vs.map .base }

def engine (cfg : Config) : Engine Store Lock Version Error Op Op.Ret where
  exec op busy s := op.exec cfg busy s
  row := Version.lock
  put v s := s.put v
  inFailedTx := .wrap "tx" .inFailedTransaction

abbrev Tx := Script Op Op.Ret Error

abbrev call (op : Op) : Tx op.Ret := Script.exec op

/-! ## RiskZilla -/

variable (cfg : Config)

def evaluateVelocity (intent : Intent) (nowMs : Int) : Tx (Option Rejection) := do
  if ¬ cfg.controls.velocityEnabled then return none
  else
    let counts ← call (.recent intent.userId nowMs)
    return velocityGate cfg intent counts

/-- The gates behind the ticket's own: buckets, then the bank. -/
def evaluateLiability (fallback : SettingsRow) (intent : Intent) (terms : BankTerms) :
    Tx Decision := do
  let matchIds := (intent.legs.map (·.matchId)).dedup
  let bucket ← call (.bucketRows matchIds none)
  let market ← call (.marketSumRows matchIds none)
  let bettorBucket ← call (.bucketRows matchIds (some intent.userId))
  let bettorMarket ← call (.marketSumRows matchIds (some intent.userId))
  match legGates cfg fallback intent ⟨bucket, market, bettorBucket, bettorMarket⟩ with
  | some why => return .rejected why terms
  | none =>
    match bankGate intent terms with
    | some why => return .rejected why terms
    | none => return .accepted terms

/-- Placements in the managed currency are serialised by an advisory lock; the demo
currency bypasses the engine. -/
def evaluate (intent : Intent) : Tx Decision := do
  if intent.currency ≠ Db.riskzillaCurrency then return .accepted {}
  else if intent.userStatus ≠ "active" then return .rejected .userBlocked {}
  else
    call .lockBankState
    match cfg.settings 0, intent.legs with
    | none, _ => .fail (.msg "riskzilla_engine_error")
    | _, [] => .fail (.msg "riskzilla_engine_error")
    | some fallback, first :: _ =>
      let bank ← call .bankState
      let userBalances ← call .sumUserBalances
      let terms : BankTerms := ⟨bank.1, bank.2, userBalances⟩
      match ticketGate cfg fallback intent first with
      | some why => return .rejected why terms
      | none => evaluateLiability cfg fallback intent terms

/-! ## place -/

/-- A request, validated and priced. -/
structure PlaceRequest where
  idempotencyKey : String
  /-- `gen_random_uuid()` -/
  ticketId : TicketId
  /-- the priced ticket of the caller, `pending_delay` or `accepted` -/
  row : Ticket
  legs : List Db.NewLeg
  riskLegs : List IntentLeg
  nowMs : Int

def PlaceRequest.intent (r : PlaceRequest) (user : UserRow) : Intent where
  userId := r.row.userId
  currency := r.row.currency
  stakeMicro := r.row.stakeMicro
  potentialPayoutMicro := r.row.potentialPayoutMicro
  legs := r.riskLegs
  userStatus := user.status
  userRiskScore := user.riskScore

/-- The ticket that is stored under the key, if it is the caller's. -/
def existing (r : PlaceRequest) (found : TicketId × UserId) : Tx (Option TicketId) :=
  if found.2 ≠ r.row.userId then .fail (.msg "idempotency_key_collision") else return some found.1

/-- From the insert on. -/
def record (r : PlaceRequest) (terms : BankTerms) : Tx (Option TicketId) := do
  if ← call (.insertTicket r.idempotencyKey r.ticketId r.row) then
    call (.insertSelections r.ticketId r.legs)
    call (.lockStake r.row.userId r.row.currency r.row.stakeMicro)
    call (.insertLedger (Db.stakeRow r.ticketId r.row))
    if r.row.currency = Db.riskzillaCurrency then
      call (.commitAccepted r.ticketId r.row.potentialPayoutMicro terms)
      return some r.ticketId
    else return some r.ticketId
  else
    match ← call (.findByIdempotencyKey r.idempotencyKey) with
    | none => .fail (.msg "ticket insert returned no row")
    | some found => existing r found

/-- Behind the locks: RiskZilla, then the rows. -/
def underwrite (r : PlaceRequest) (user : UserRow) : Tx (Option TicketId) := do
  match ← evaluateVelocity cfg (r.intent user) r.nowMs with
  | some why => .fail (.msg why.reason)
  | none =>
    match ← evaluate cfg (r.intent user) with
    | .rejected why _ => .fail (.msg why.reason)
    | .accepted terms => record r terms

def place (r : PlaceRequest) : Tx (Option TicketId) := do
  match ← call (.findByIdempotencyKey r.idempotencyKey) with
  | some found => existing r found
  | none =>
    match ← call (.lockUser r.row.userId) with
    | none => .fail (.msg "unauthorized")
    | some user =>
      if user.status ≠ "active" then .fail (.msg "account_not_active")
      else
        match ← call (.lockWallet r.row.userId r.row.currency) with
        | none => .fail (.msg "wallet_not_found")
        | some w =>
          if w.balanceMicro - w.lockedMicro < r.row.stakeMicro then
            .fail (.msg "insufficient_balance")
          else if 0 < user.globalLimitMicro ∧ user.globalLimitMicro < r.row.stakeMicro then
            .fail (.msg "exceeds_global_limit")
          else underwrite cfg r user

/-- After the rollback of a placement that RiskZilla has rejected. -/
def recordRejection (eventId : Nat) (user : UserId) (why : Rejection) : Tx (Option TicketId) := do
  call (.recordRejection eventId user why)
  return none

/-! ## The bet-delay worker -/

/-- `processTicket`; `decide` is what the worker's `evaluate` says of the row. -/
def processTicket (id : TicketId) (decide : Ticket → EvalResult) : Tx (Option TicketId) := do
  match ← call (.lockTicket id) with
  | none => return none
  | some t =>
    if t.status ≠ .pendingDelay then return none
    else
      match decide t with
      | .reject reason =>
        call (.rejectAndRefund id t.userId t.currency reason t.stakeMicro t.potentialPayoutMicro)
        return none
      | .accept =>
        call (.accept id)
        return none
      | .acceptWithUpdatedOdds newPayoutMicro legs =>
        call (.acceptWithUpdatedOdds id t.currency t.potentialPayoutMicro newPayoutMicro legs)
        return none

/-! ## Sessions -/

/-- A transaction in progress. -/
abbrev Running := Active Lock Version Op Op.Ret Error (Option TicketId)

/-- Sessions that place bets and resolve delays. -/
abbrev Floor (ι : Type) := World ι Store Lock Version Op Op.Ret Error (Option TicketId)

/-! ## A small instance -/

namespace Sample

def user : UserId := .ofDigit 1
def ticketId : TicketId := .ofDigit 2

/-- One tier with wide bounds. -/
def config : Config where
  settings _ := some ⟨1000, 0, 1000, 1⟩
  marketFactors _ := none
  controls := ⟨false, 0, 0⟩
  matchOf _ := 0

/-- One bettor with a balance of 20. -/
def store (bankLimitMicro : Int) : Store where
  db := { Db.empty with wallets := fun _ _ => some (.of 0 20) }
  users _ := some ⟨"active", 0, 1⟩
  bettors := [user]
  idempotency _ := none
  bankLimitMicro := bankLimitMicro
  accepted := []
  rejections := []

/-- A stake of 10 at 8. -/
def request (id : TicketId) : PlaceRequest where
  idempotencyKey := "key"
  ticketId := id
  row := ⟨user, "USDC", .pendingDelay, .single, 10, 80, none, none, 0, by decide, by decide⟩
  legs := [⟨1, "1", 8⟩]
  riskLegs := [⟨1, "1", 0, 1, none, 8⟩]
  nowMs := 0

end Sample

end Oddzilla.Placement
