import Mathlib.Data.Fintype.Defs
import Mathlib.Logic.Function.Basic
import Oddzilla.Api.Competitions

/-!
# Concurrent joins

The join request of `community/competitions.ts`, one statement at a time: the statements of
several requests interleave under READ COMMITTED.  A conflicting insert waits for the other
transaction, and so does an update of the competition.  A request may be lost at any
statement, with what its transaction wrote.
-/

namespace Oddzilla.Competitions

def Db.rows (db : Db) (c : CompetitionId) : Nat :=
  db.participants.countP fun x => x.competitionId = c

structure JoinCompetitionResponse where
  competitionId : CompetitionId
  joinedAtMs : Int
  alreadyJoined : Bool
  deriving DecidableEq

inductive Phase
  | received
  | opened
  | capped (cap : Int)
  /-- `seen` rows were counted, if there is a cap -/
  | admitted (seen : Option Nat)
  | inserted (seen : Option Nat) (joinedAtMs : Int)
  | bumped (seen : Option Nat) (joinedAtMs : Int) (participantCount : Nat)
  /-- `DO NOTHING` returned no row. -/
  | existing
  | answered (answer : Except String JoinCompetitionResponse)
  | lost

/-- The transaction has inserted a row. -/
def Phase.holds : Phase → Bool
  | .inserted .. | .bumped .. => true
  | _ => false

/-- The transaction has updated the competition. -/
def Phase.locks : Phase → Bool
  | .bumped .. => true
  | _ => false

def Phase.over : Phase → Bool
  | .answered _ | .lost => true
  | _ => false

structure Request where
  userId : UserId
  phase : Phase := .received
  /-- The user was a participant when the request came in. -/
  repeated : Bool := false

inductive Act
  | read
  | getMaxParticipantsCap
  | count
  | insert (nowMs : Int)
  | bump
  | commit
  | select (nowMs : Int)
  | lose

/-- What is committed, and the requests. -/
structure World (ι : Type) where
  db : Db
  /-- a column of the participants -/
  joinedAtMs : UserId → Int
  requests : ι → Request

variable {ι : Type} [Fintype ι] [DecidableEq ι] (c : CompetitionId) (w : World ι) (i : ι)

/-- The request after a statement; `none` when it waits. -/
def World.statement (act : Act) : Option Request :=
  let r := w.requests i
  match act, r.phase with
  | .read, .received =>
    let phase : Phase :=
      match w.db.competition c with
      | none => .answered (.error "not_found")
      | some comp =>
        if closed comp.status then .answered (.error "competition_not_open") else .opened
    some { r with phase, repeated := (w.db.participant c r.userId).isSome }
  | .getMaxParticipantsCap, .opened =>
    some { r with
      phase := match w.db.maxParticipantsCap c with
        | none => .admitted none
        | some cap => .capped cap }
  | .count, .capped cap =>
    some { r with
      phase := if cap ≤ w.db.rows c then .answered (.error "competition_full")
        else .admitted (some (w.db.rows c)) }
  | .insert nowMs, .admitted seen =>
    if (w.db.participant c r.userId).isSome then some { r with phase := .existing }
    else if ∃ j, j ≠ i ∧ (w.requests j).phase.holds ∧ (w.requests j).userId = r.userId then none
    else some { r with phase := .inserted seen nowMs }
  | .bump, .inserted seen joinedAtMs =>
    if ∃ j, j ≠ i ∧ (w.requests j).phase.locks then none
    else
      let participantCount := (w.db.competition c).elim 0 (·.participantCount)
      some { r with phase := .bumped seen joinedAtMs (participantCount + 1) }
  | .commit, .bumped _ joinedAtMs _ =>
    some { r with phase := .answered (.ok ⟨c, joinedAtMs, false⟩) }
  | .select nowMs, .existing =>
    let joinedAtMs := (w.db.participant c r.userId).elim nowMs fun _ => w.joinedAtMs r.userId
    some { r with phase := .answered (.ok ⟨c, joinedAtMs, true⟩) }
  | .lose, phase => if phase.over then none else some { r with phase := .lost }
  | _, _ => none

/-- The tables after a commit. -/
def Db.publish (db : Db) (u : UserId) (participantCount : Nat) : Db :=
  { db with
    participants := db.participants ++ [{ competitionId := c, userId := u }]
    competitions :=
      db.competitions.map fun x => if x.id = c then { x with participantCount } else x }

/-- Only a commit is seen by the other requests. -/
def World.after (act : Act) (r : Request) : World ι :=
  let requests := Function.update w.requests i r
  match act, (w.requests i).phase with
  | .commit, .bumped _ joinedAtMs participantCount =>
    { db := w.db.publish c r.userId participantCount
      joinedAtMs := Function.update w.joinedAtMs r.userId joinedAtMs
      requests }
  | _, _ => { w with requests }

def next (w : World ι) (e : ι × Act) : Option (World ι) :=
  (w.statement c e.1 e.2).map (w.after c e.1 e.2)

end Oddzilla.Competitions
