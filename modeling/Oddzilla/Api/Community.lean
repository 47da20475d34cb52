import Mathlib.Data.List.Sort
import Oddzilla.Lib.Table
import Oddzilla.Lib.Trace
import Oddzilla.Store.Schema

/-!
# The community projection

`community_tickets` mirrors the tickets, `community_user_stats` counts them.  Settlement
writes the first with `WriteCommunityProjection` (`store.go`), the cashout and the admin's
backfill write both with `writeCommunityProjection` (`projection.ts`).  The statements are
alike but for the accounts they skip and the stats they bump.

No writer sets `copied_from_publisher_id`, so the statement's `author_stats_bump` finds no
row; it is left out.
-/

namespace Oddzilla.Community

/-! ## Tables -/

/-- A selection with the odds it was placed at and the sport of its match. -/
structure Leg where
  oddsAtPlacement : ℚ
  sportId : Option Nat
  deriving DecidableEq

/-- A ticket, joined to its selections. -/
structure TicketRow extends Ticket where
  settledAtMs : Option Int
  legs : List Leg

/-- A `community_tickets` row; `D` are the doubles. -/
structure CommunityTicket (D : Type) where
  userId : UserId
  currency : Currency
  status : TicketStatus
  betType : BetType
  stakeMicro : Int
  payoutMicro : Int
  totalOdds : ℚ
  numLegs : Nat
  sportIds : List Nat
  settledAtMs : Int
  score : D
  deriving DecidableEq

/-- `settled_count`, `wins_count`, `total_stake_micro` and `total_payout_micro`; an absent
row is all zeros. -/
abbrev UserStats := Int × Int × Int × Int

structure Db (D : Type) where
  tickets : TicketId → Option TicketRow
  isAi : UserId → Bool
  projected : Table TicketId (CommunityTicket D)
  stats : UserId → Currency → UserStats

/-- What the server computes in double precision: `EXP(SUM(LN(odds)))::numeric(10, 4)`, and
the score of payout, stake, total odds and the bettor's wins among the earlier tickets. -/
structure Formulas (D : Type) where
  totalOdds : List ℚ → Except PgError ℚ
  score : Int → Int → ℚ → Nat → Nat → Except PgError D

variable {D : Type} (F : Formulas D) (db : Db D)

/-! ## The row of a ticket -/

/-- The `legs` CTE: nothing for a ticket without selections, and nothing for an AI account
if they are skipped. -/
def Db.legs (skipAi : Bool) (id : TicketId) : Option TicketRow :=
  (db.tickets id).filter fun t => !t.legs.isEmpty && !(skipAi && db.isAi t.userId)

def isWin (r : CommunityTicket D) : Bool := r.stakeMicro < r.payoutMicro

/-- The bettor's tickets in the currency that ended before. -/
def isPrior (u : UserId) (c : Currency) (settledAtMs : Int) (r : CommunityTicket D) : Bool :=
  r.userId = u && r.currency = c && r.settledAtMs < settledAtMs &&
    (r.status = .settled || r.status = .cashedOut)

def Db.priorCount (p : CommunityTicket D → Bool) : Nat :=
  db.projected.sum fun r => if p r then 1 else 0

def Db.projectedRow (nowMs : Int) (t : TicketRow) : Except PgError (CommunityTicket D) := do
  let payoutMicro := t.actualPayoutMicro.getD 0
  let settledAtMs := t.settledAtMs.getD nowMs
  let prior := isPrior t.userId t.currency settledAtMs
  let totalOdds ← F.totalOdds (t.legs.map (·.oddsAtPlacement))
  let score ← F.score payoutMicro t.stakeMicro totalOdds
    (db.priorCount fun r => prior r && isWin r) (db.priorCount prior)
  return { userId := t.userId, currency := t.currency, status := t.status, betType := t.betType,
           stakeMicro := t.stakeMicro, payoutMicro, totalOdds, numLegs := t.legs.length,
           sportIds := (t.legs.filterMap (·.sportId)).dedup.insertionSort (· ≤ ·), settledAtMs, score }

/-- `DO UPDATE SET` -/
def CommunityTicket.update (old new : CommunityTicket D) : CommunityTicket D :=
  { old with
    status := new.status
    payoutMicro := new.payoutMicro
    settledAtMs := new.settledAtMs
    score := new.score }

/-- `INSERT … ON CONFLICT (ticket_id) DO UPDATE` -/
def upsert (t : Table TicketId (CommunityTicket D)) (id : TicketId) (new : CommunityTicket D) :
    Table TicketId (CommunityTicket D) :=
  if (t.row id).isSome then t.modify id (·.update new) else t.insertNew id new

/-! ## The two statements -/

/-- `WriteCommunityProjection` -/
def goWrite (id : TicketId) (nowMs : Int) : Except PgError (Db D) :=
  match db.legs false id with
  | none => .ok db
  | some t =>
    (db.projectedRow F nowMs t).map fun row => { db with projected := upsert db.projected id row }

/-- What a ticket counts for in its bettor's stats. -/
def tallyOf (status : TicketStatus) (stakeMicro payoutMicro : Int) : UserStats :=
  if status = .settled ∨ status = .cashedOut ∨ status = .voided then
    (1, if (status = .settled ∨ status = .cashedOut) ∧ stakeMicro < payoutMicro then 1 else 0,
      stakeMicro, payoutMicro)
  else 0

def tally (r : CommunityTicket D) : UserStats := tallyOf r.status r.stakeMicro r.payoutMicro

def share (u : UserId) (c : Currency) (r : CommunityTicket D) : UserStats :=
  if r.userId = u ∧ r.currency = c then tally r else 0

/-- The rows of a call, computed on what was there before it. -/
def Db.rows (ids : List TicketId) (nowMs : Int) :
    Except PgError (List (TicketId × CommunityTicket D)) :=
  (ids.dedup.filterMap fun id => (db.legs true id).map fun t => (id, t)).mapM fun p =>
    (db.projectedRow F nowMs p.2).map fun row => (p.1, row)

/-- The `user_stats_bump` CTE: the rows that are inserted (`xmax = 0`). -/
def Db.bump (rows : List (TicketId × CommunityTicket D)) (u : UserId) (c : Currency) : UserStats :=
  ((rows.filter fun p => (db.projected.row p.1).isNone).map fun p => share u c p.2).sum

/-- `writeCommunityProjection` -/
def tsWrite (ids : List TicketId) (nowMs : Int) : Except PgError (Db D) :=
  (db.rows F ids nowMs).map fun rows =>
    { db with
      projected := rows.foldl (fun t p => upsert t p.1 p.2) db.projected
      stats := fun u c => db.stats u c + db.bump rows u c }

/-! ## Who runs them -/

def Db.setTicket (id : TicketId) (t : TicketRow) : Db D :=
  { db with tickets := Function.update db.tickets id (some t) }

inductive Event
  | settle (id : TicketId) (payoutMicro nowMs : Int)
  | reverse (id : TicketId) (nowMs : Int)
  /-- the projection comes after the commit; `arrives` says whether it is run -/
  | cashOut (id : TicketId) (payoutMicro nowMs : Int) (arrives : Bool)
  /-- one batch -/
  | backfill (ids : List TicketId) (nowMs : Int)
  /-- another writer of the ticket, without a projection -/
  | other (id : TicketId) (t : TicketRow)

/-- The ticket that an event writes. -/
def Db.ticketAfter : Event → Option (TicketId × TicketRow)
  | .settle id payout now => ((db.tickets id).filter fun t => t.status = .accepted).map fun t =>
    (id, { t with status := .settled, actualPayoutMicro := some payout, settledAtMs := some now })
  | .reverse id _ => ((db.tickets id).filter fun t => t.status = .settled).map fun t =>
    (id, { t with status := .accepted, actualPayoutMicro := none, settledAtMs := none })
  | .cashOut id payout now _ => ((db.tickets id).filter fun t => t.status = .accepted).map fun t =>
    (id, { t with status := .cashedOut, actualPayoutMicro := some payout, settledAtMs := some now })
  | .backfill .. => none
  | .other id t => some (id, t)

/-- A failed statement takes settlement's transaction with it, and only itself elsewhere. -/
def step (e : Event) : Option (Db D) :=
  match e with
  | .settle _ _ now | .reverse _ now =>
    (db.ticketAfter e).bind fun (id, t) => (goWrite F (db.setTicket id t) id now).toOption
  | .cashOut _ _ now arrives =>
    (db.ticketAfter e).map fun (id, t) =>
      if arrives then (tsWrite F (db.setTicket id t) [id] now).toOption.getD (db.setTicket id t)
      else db.setTicket id t
  | .backfill ids now => (tsWrite F db ids now).toOption
  | .other .. => (db.ticketAfter e).map fun (id, t) => db.setTicket id t

end Oddzilla.Community
