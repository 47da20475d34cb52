import Oddzilla.Api.Cashout
import Oddzilla.Api.Placement
import Oddzilla.SlotZilla.Store

/-!
# Everyone who writes the open liability, on one database

Placement, the bet-delay worker, settlement, cashout, the manual void and SlotZilla
all move `riskzilla_bank_state.open_liability_micro`.  Their transactions are put on
the same tables here: SlotZilla reads and writes the users, the wallets and the counter
of the others.

The bet-delay worker takes the ticket's columns from the list it has read before
(`ListReady`, or the query of `processOne`) and locks the row for its status only.
-/

namespace Oddzilla.Bank

open Txn

/-! ## Tables -/

structure Store where
  place : Placement.Store
  /-- its users, wallets and counter are those of `place` -/
  slots : SlotZilla.Db

/-- `CHAR(4)` -/
def coinText : SlotZilla.Coin → Currency
  | .USDC => "USDC"
  | .OZ => "OZ  "

/-- The database as SlotZilla's statements see it. -/
def Store.slotView (s : Store) : SlotZilla.Db :=
  { s.slots with
    users := fun u => (s.place.users u).map fun r => ⟨r.status, r.globalLimitMicro, r.riskScore⟩
    wallets := fun k => s.place.db.wallets k.1 (coinText k.2)
    openLiabilityMicro := s.place.db.openLiabilityMicro }

inductive Lock
  | place (r : Placement.Lock)
  | slot (r : SlotZilla.Lock)
  deriving DecidableEq

inductive Version
  | place (v : Placement.Version)
  | slot (v : SlotZilla.Version)

/-- A row of settlement's store. -/
abbrev Lock.base (r : Row) : Lock := .place (.base r)

abbrev Version.base (v : RowVersion) : Version := .place (.base v)

/-- The rows SlotZilla shares have one lock. -/
def Lock.ofSlot : SlotZilla.Lock → Lock
  | .user u => .place (.user u)
  | .wallet u c => .base (.wallet u (coinText c))
  | .bankState => .base .bankState
  | r => .slot r

def Version.ofSlot : SlotZilla.Version → Version
  | .wallet u c w => .base (.wallet u (coinText c) w)
  | .bankState x => .base (.openLiability x)
  | v => .slot v

def Version.lock : Version → Lock
  | place v => .place v.lock
  | slot v => .ofSlot v.lock

def Store.put : Version → Store → Store
  | .place v, s => { s with place := s.place.put v }
  | .slot v, s => { s with slots := s.slots.put v }

/-! ## Statements -/

inductive Op
  | place (op : Placement.Op)
  /-- settlement's and the cashout's -/
  | cashout (op : Cashout.Op)
  | slot (op : SlotZilla.Op)
  /-- one row of `ListReady` -/
  | listPending (id : TicketId)
  /-- `Lock` of the bet-delay store -/
  | lockStatus (id : TicketId)
  | lockTicket (id : TicketId)
  | voidWrites (id : TicketId) (row : Ticket) (reason : String)

@[reducible] def Op.Ret : Op → Type
  | .place op => op.Ret
  | .cashout op => op.Ret
  | .slot op => op.Ret
  | .listPending _ => Option Ticket
  | .lockStatus _ => Option TicketStatus
  | .lockTicket _ => Option Ticket
  | .voidWrites .. => Unit

/-- A reply of one of the stores as a reply of the whole database. -/
def lift {Row Ver ρ : Type} (row : Row → Lock) (ver : Ver → Version) (r : Reply Row Ver ρ) :
    Reply Lock Version ρ :=
  ⟨r.ret, r.writes.map ver, r.locks.map row⟩

/-- What a statement answers on the rows `s` when `busy` are the rows of others. -/
def Op.exec (cfg : Riskzilla.Config) (busy : Lock → Bool) (s : Store) :
    (op : Op) → Except Error (Reply Lock Version op.Ret)
  | .place op => (op.exec cfg (fun r => busy (.place r)) s.place).map (lift .place .place)
  | .cashout op => (op.exec (fun r => busy (.base r)) s.place.db).map (lift .base .base)
  | .slot op => (op.exec s.slotView).map (lift .ofSlot .ofSlot)
  | .listPending id =>
    .ok { ret := (s.place.db.tickets id).filter fun t => t.status = .pendingDelay }
  | .lockStatus id =>
    let row := s.place.db.lockTicket (fun r => busy (.base r)) id
    .ok { ret := row.map (·.status), locks := (ticketLock id row).map .base }
  | .lockTicket id => .ok { ret := s.place.db.tickets id, locks := [.base (.ticket id)] }
  | .voidWrites id row reason =>
    (s.place.db.voidWrites id row reason).map fun vs => { ret := (), writes := vs.map .base }

def engine (cfg : Riskzilla.Config) : Engine Store Lock Version Error Op Op.Ret where
  exec op busy s := op.exec cfg busy s
  row := Version.lock
  put v s := s.put v
  inFailedTx := .wrap "tx" .inFailedTransaction

abbrev Tx := Script Op Op.Ret Error

abbrev call (op : Op) : Tx op.Ret := Script.exec op

/-! ## The transactions of the stores on the whole database -/

variable {α : Type}

def ofPlace : Placement.Tx α → Tx α
  | .done a => .done a
  | .fail e => .fail e
  | .call op k => .call (.place op) fun r => ofPlace (k r)

def ofCashout : Cashout.Tx α → Tx α
  | .done a => .done a
  | .fail e => .fail e
  | .call op k => .call (.cashout op) fun r => ofCashout (k r)

def ofSlot : SlotZilla.Tx α → Tx α
  | .done a => .done a
  | .fail e => .fail e
  | .call op k => .call (.slot op) fun r => ofSlot (k r)

def ofSettlement (p : Oddzilla.Tx α) : Tx α := ofCashout (Cashout.ofStore p)

/-! ## The worker and the manual void -/

/-- `processTicket` on a ticket of the list; `decide` is what the worker's `evaluate` says
of it. -/
def processTicket (id : TicketId) (decide : Ticket → EvalResult) : Tx Unit := do
  match ← call (.listPending id) with
  | none => return ()
  | some p =>
    match ← call (.lockStatus id) with
    | none => return ()
    | some status =>
      if status ≠ .pendingDelay then return ()
      else
        match decide p with
        | .reject reason =>
          call (.place (.rejectAndRefund id p.userId p.currency reason p.stakeMicro
            p.potentialPayoutMicro))
        | .accept => call (.place (.accept id))
        | .acceptWithUpdatedOdds newPayoutMicro legs =>
          call (.place (.acceptWithUpdatedOdds id p.currency p.potentialPayoutMicro newPayoutMicro
            legs))

/-- `POST /admin/tickets/:id/void` -/
def adminVoid (id : TicketId) (reason : String) : Tx Unit := do
  match ← call (.lockTicket id) with
  | none => .fail (.msg "ticket_not_found")
  | some row => call (.voidWrites id row reason)

/-! ## The parties -/

/-- A transaction whose result nobody looks at here. -/
def unit (p : Tx α) : Tx Unit := p.bind fun _ => .done ()

/-- Who takes part; a placement inserts its ticket as `pending_delay` or `accepted`. -/
inductive Party (cfg : Riskzilla.Config) : Tx Unit → Prop
  | place (r : Placement.PlaceRequest)
      (hopen : r.row.status = .pendingDelay ∨ r.row.status = .accepted) :
    Party cfg (unit (ofPlace (Placement.place cfg r)))
  | recordRejection (e : Nat) (u : UserId) (why : Riskzilla.Rejection) :
    Party cfg (unit (ofPlace (Placement.recordRejection e u why)))
  | processTicket (id : TicketId) (decide : Ticket → EvalResult) :
    Party cfg (processTicket id decide)
  | adminVoid (id : TicketId) (reason : String) : Party cfg (adminVoid id reason)
  | acceptCashout (r : Cashout.AcceptRequest) :
    Party cfg (unit (ofCashout (Cashout.acceptCashout r)))
  | settlePhase1 (urn : String) (market : FeedMarket) :
    Party cfg (unit (ofSettlement (settlePhase1 urn market)))
  | settleTicketChunk (ids : List TicketId) :
      Party cfg (unit (ofSettlement (settleTicketChunk ids)))
  | healAndCollect : Party cfg (unit (ofSettlement healAndCollect))
  | marketCancel (urn : String) (market : FeedMarket) :
    Party cfg (unit (ofSettlement (marketCancel urn market)))
  | applyRollback (urn : String) (market : FeedMarket) (type : SettlementType) :
    Party cfg (unit (ofSettlement (applyRollback urn market type)))
  | slot {p : SlotZilla.Tx Bool} (hp : SlotZilla.Party p) : Party cfg (unit (ofSlot p))

abbrev Floor (ι : Type) := World ι Store Lock Version Op Op.Ret Error Unit

end Oddzilla.Bank
