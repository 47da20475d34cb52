import Oddzilla.Lib.Trace
import Oddzilla.Settler.Scripts

/-!
# Settlements from the stream

`extstream/consumer.go`: two loops share one consumer group of the stream
`settlement.external`.  The read loop takes new entries in order; an entry whose apply
fails stays on the group's pending list, from where the claim loop takes it again once it
has been idle for a minute.  The two handlers of `settler/external.go` are those of the
feed's messages; the closing of the match after them is left out.
-/

namespace Oddzilla.Extstream

open Txn

/-- The fields of an entry.  `providerMarketId` is what `strconv.Atoi` makes of its field;
`outcomes` is the decoded array, `none` when it is malformed; a bound of the window is
`none` when it does not parse. -/
structure Entry where
  id : Nat
  type : String
  eventUrn : String
  providerMarketId : Option Int
  specifiers : String
  outcomes : Option (List FeedOutcome)
  startMs : Option Int := none
  endMs : Option Int := none
  deriving DecidableEq

/-- What an entry asks for; one that is malformed or of another type is dropped. -/
def Entry.message (e : Entry) : Option FeedMessage :=
  match e.providerMarketId, e.outcomes with
  | some pmid, some outcomes =>
    if e.eventUrn = "" then none
    else if e.type = "settle" then
      if outcomes = [] then none
      else some ⟨.settle, { id := pmid, specifiers := e.specifiers, outcomes }⟩
    else if e.type = "cancel" then
      some ⟨.cancel, { id := pmid, specifiers := e.specifiers, outcomes,
                       startTime := e.startMs.filter (0 < ·), endTime := e.endMs.filter (0 < ·) }⟩
    else none
  | _, _ => none

/-- `apply`; a dropped entry counts as done. -/
def Entry.apply (env : Env Row Op Error) (e : Entry) (db : Db) : Except Error Unit × Db :=
  match e.message with
  | none => (.ok (), db)
  | some msg =>
    let (result, db') := handle env e.eventUrn msg db
    (result.map fun _ => (), db')

/-! ## The consumer -/

/-- `batchSize` -/
def batchSize : Nat := 64

structure Consumer where
  /-- behind the group's last delivered id -/
  unread : List Entry
  /-- delivered and not acknowledged -/
  pending : List Entry := []
  /-- what the read loop has left of its batch -/
  batch : List Entry := []
  /-- what the claim loop has left of its page -/
  claimed : List Entry := []
  db : Db

inductive Event
  /-- `XREADGROUP … >` has returned `n` entries -/
  | read (n : Nat)
  /-- the read loop's next entry; `acked` says whether an `XACK` arrives -/
  | handle (env : Env Row Op Error) (acked : Bool)
  /-- `XAUTOCLAIM` has returned entries that were idle -/
  | claim (idle : Nat → Bool)
  /-- the claim loop's next entry -/
  | retry (env : Env Row Op Error) (acked : Bool)
  | restart

/-- `handleMessages`, one entry: acknowledged if it has been applied. -/
def Consumer.handleMessage (s : Consumer) (e : Entry) (env : Env Row Op Error) (acked : Bool) :
    Consumer :=
  match e.apply env s.db with
  | (.error _, db') => { s with db := db' }
  | (.ok _, db') =>
    { s with
      db := db'
      pending := if acked then s.pending.filter (·.id ≠ e.id) else s.pending }

def step (s : Consumer) : Event → Option Consumer
  | .read n =>
    if s.batch = [] ∧ n ≤ batchSize then
      let delivered := s.unread.take n
      some { s with
        unread := s.unread.drop n
        pending := s.pending ++ delivered
        batch := delivered }
    else none
  | .handle env acked =>
    match s.batch with
    | [] => none
    | e :: rest => some ({ s with batch := rest }.handleMessage e env acked)
  | .claim idle =>
    if s.claimed = [] then
      some { s with claimed := (s.pending.filter fun e => idle e.id).take batchSize }
    else none
  | .retry env acked =>
    match s.claimed with
    | [] => none
    | e :: rest => some ({ s with claimed := rest }.handleMessage e env acked)
  | .restart => some { s with batch := [], claimed := [] }

/-- The entry an event is about to apply. -/
def Consumer.next (s : Consumer) : Event → Option Entry
  | .handle .. => s.batch.head?
  | .retry .. => s.claimed.head?
  | _ => none

/-- The whole stream is unread. -/
def start (entries : List Entry) (db : Db) : Consumer := { unread := entries, db }

/-- Everything has been delivered and applied. -/
def Consumer.drained (s : Consumer) : Bool := s.unread.isEmpty && s.pending.isEmpty

/-- The entries in order, without a failure. -/
def applyAll (env : Env Row Op Error) : List Entry → Db → Except Error Db
  | [], db => .ok db
  | e :: rest, db =>
    match e.apply env db with
    | (.error err, _) => .error err
    | (.ok _, db') => applyAll env rest db'

end Oddzilla.Extstream
