import Mathlib.Data.Fintype.Basic
import Oddzilla.Lib.ReadCommitted
import Oddzilla.Settler.Scripts

/-!
# Settling with several workers

`settleTicketsInParallel`: the tickets are partitioned by a hash of their owner,
and every worker settles its partition chunk by chunk, each chunk in a
transaction of its own.  The workers are the sessions of a world; a worker whose
partition is empty has nothing to do.  `settleTicketsSequential` is the world
with one session, and the function of the same name in `Scripts`.
-/

namespace Oddzilla

open Txn

abbrev TxWorld (ι α : Type) := World ι Db Row RowVersion Op Op.Ret Error α

abbrev TxActive (α : Type) := Active Row RowVersion Op Op.Ret Error α

/-- FNV-1a on 32 bits. -/
def fnv32 (s : String) : UInt32 :=
  s.toUTF8.toList.foldl (fun h b => (h ^^^ b.toUInt32) * 16777619) 2166136261

/-- `LoadTicketUserMap`, for one ticket. -/
def Db.ticketUser (db : Db) (id : TicketId) : Option UserId := (db.tickets id).map (·.userId)

/-- The worker of a ticket; without an owner in the map it is the first. -/
def workerOf (parallelism : Nat) (userMap : TicketId → Option UserId) (id : TicketId) : Nat :=
  match userMap id with
  | some uid => (fnv32 uid.text % UInt32.ofNat parallelism).toNat
  | none => 0

/-- The tickets of worker `w`.  With one worker or one chunk all tickets are
settled by one. -/
def partitionOf (parallelism chunkSize : Nat) (userMap : TicketId → Option UserId)
    (tickets : List TicketId) (w : Nat) : List TicketId :=
  if parallelism ≤ 1 ∨ tickets.length ≤ chunkSize then if w = 0 then tickets else []
  else tickets.filter fun id => workerOf parallelism userMap id = w

/-- The workers before their first step. -/
def settleTicketsInParallel (parallelism chunkSize : Nat) (tickets : List TicketId) (db : Db) :
    TxWorld (Fin parallelism) (List TicketId) where
  db := db
  sessions w := .fresh ((chunksOf chunkSize
    (partitionOf parallelism chunkSize db.ticketUser tickets w)).map settleTicketChunk)

/-- What the workers have appended to `settled`. -/
def settledBy {p : Nat} (w : TxWorld (Fin p) (List TicketId)) : List TicketId :=
  (List.finRange p).flatMap fun i => (w.sessions i).out.flatten

end Oddzilla
