import Mathlib.Data.Fintype.Defs
import Mathlib.Logic.Function.Basic
import Oddzilla.Lib.Calendar
import Oddzilla.Lib.Trace

/-!
# Views that count for a ZillaPass task

`nudgeSportViewed` and `nudgeMatchViewed` of `zillapass/writer.ts` for one user, one statement
at a time: calls interleave under READ COMMITTED.  `SELECT … FOR UPDATE` locks the row of a
task and period if there is one and waits for who has it; the insert of a row waits for
another insert of it and fails when that commits.  A failure ends the whole call.
-/

namespace Oddzilla.ZillaPass

/-! ## Tasks and periods -/

inductive Period
  | daily | weekly | season
  deriving DecidableEq

structure Task where
  id : Nat
  predicateKey : String
  period : Period
  targetCount : Nat
  active : Bool := true
  deriving DecidableEq

/-- `zillapass_tasks` -/
structure Tasks where
  rows : List Task
  keyed : rows.Pairwise fun t t' => t.id ≠ t'.id

def msPerDay : Int := 86400000

/-- `getUTCDay`; the first of January 1970 was a Thursday. -/
def utcDay (nowMs : Int) : Int := (nowMs / msPerDay + 4) % 7

def isoDate (nowMs : Int) : List Char := (Calendar.isoText nowMs).take 10

def periodStartKey (period : Period) (nowMs : Int) : List Char :=
  match period with
  | .daily => isoDate nowMs
  | .weekly =>
    let mondayOffset := if utcDay nowMs = 0 then -6 else 1 - utcDay nowMs
    isoDate (nowMs + mondayOffset * msPerDay)
  | .season => "2026-01-01".toList

def activeTasksByPredicate (tasks : Tasks) (predicateKey : String) : List Task :=
  tasks.rows.filter fun t => t.active && t.predicateKey = predicateKey

/-! ## Progress -/

/-- `progress_state`; `none` is what is no array. -/
structure ProgressState where
  sports : Option (List String) := none
  /-- `matches` -/
  matchIds : Option (List String) := none
  deriving DecidableEq

/-- A row of `zillapass_user_progress`, whose key is the task and the period's start. -/
structure Progress where
  currentCount : Nat
  progressState : ProgressState
  completedAtMs : Option Int
  updatedAtMs : Int
  deriving DecidableEq

abbrev RowKey := Nat × List Char

/-- `set.add` -/
def add (set : List String) (x : String) : List String := if x ∈ set then set else set ++ [x]

/-- `new Set(…)`, in the order of insertion -/
def newSet (xs : Option (List String)) : List String := (xs.getD []).foldl add []

inductive View
  | sportView (sportSlug : String)
  | matchView (matchId sportSlug : String)
  deriving DecidableEq

def View.predicateKey : View → String
  | .sportView _ => "sports_viewed"
  | .matchView .. => "matches_viewed_diff_sports"

def View.sportSlug : View → String
  | .sportView s => s
  | .matchView _ s => s

/-- The reducers: the state after a view, and its count. -/
def View.reduce (state : ProgressState) : View → ProgressState × Nat
  | .sportView sportSlug =>
    let sports := add (newSet state.sports) sportSlug
    ({ sports := some sports }, sports.length)
  | .matchView matchId sportSlug =>
    let matchIds := newSet state.matchIds
    let sports := newSet state.sports
    if matchId ∈ matchIds then ({ sports := some sports, matchIds := some matchIds }, sports.length)
    else
      let sports := add sports sportSlug
      ({ sports := some sports, matchIds := some (add matchIds matchId) }, sports.length)

/-- What `upsertProgressWithSet` writes. -/
def nextRow (view : View) (task : Task) (nowMs : Int) (existing : Option Progress) : Progress :=
  let startState := (existing.map (·.progressState)).getD {}
  let reduced := view.reduce startState
  let nextCount := min reduced.2 task.targetCount
  let reachedTarget := task.targetCount ≤ nextCount
  { currentCount := nextCount
    progressState := reduced.1
    completedAtMs :=
      (existing.bind (·.completedAtMs)).or (if reachedTarget then some nowMs else none)
    updatedAtMs := nowMs }

/-! ## Calls -/

inductive Phase
  | received
  /-- the tasks that are left of the loop -/
  | looping (rest : List Task)
  | selected (task : Task) (rest : List Task) (nowMs : Int) (existing : Option Progress)
  | written (task : Task) (rest : List Task) (nowMs : Int) (row : Progress)
  /-- The error has been logged. -/
  | failed
  | returned

structure Call where
  view : View
  phase : Phase := .received

def keyOf (task : Task) (nowMs : Int) : RowKey := (task.id, periodStartKey task.period nowMs)

/-- The row that the transaction of a call has written or locked. -/
def Call.holds (call : Call) : Option RowKey :=
  match call.phase with
  | .selected task _ nowMs (some _) | .written task _ nowMs _ => some (keyOf task nowMs)
  | _ => none

/-- The row that it has written. -/
def Call.wrote (call : Call) : Option RowKey :=
  match call.phase with
  | .written task _ nowMs _ => some (keyOf task nowMs)
  | _ => none

def Call.over (call : Call) : Bool :=
  match call.phase with
  | .failed | .returned => true
  | _ => false

inductive Act
  /-- The query gives the tasks in any order. -/
  | load (order : List Task)
  | select (nowMs : Int)
  | write
  | commit
  /-- `maybeStampSetCompletion`, which leaves the progress as it is -/
  | finish

/-- What is committed, and the calls. -/
structure World (ι : Type) where
  rows : RowKey → Option Progress
  calls : ι → Call

variable {ι : Type} [Fintype ι] [DecidableEq ι] (tasks : Tasks) (w : World ι) (i : ι)

/-- The phase of a call after a statement; `none` when it waits. -/
def World.statement (act : Act) : Option Phase :=
  let call := w.calls i
  match act, call.phase with
  | .load order, .received =>
    if order.Perm (activeTasksByPredicate tasks call.view.predicateKey) then some (.looping order)
    else none
  | .select nowMs, .looping (task :: rest) =>
    match w.rows (keyOf task nowMs) with
    | none => some (.selected task rest nowMs none)
    | some row =>
      if ∃ j, j ≠ i ∧ (w.calls j).holds = some (keyOf task nowMs) then none
      else some (.selected task rest nowMs (some row))
  | .write, .selected task rest nowMs (some row) =>
    some (.written task rest nowMs (nextRow call.view task nowMs (some row)))
  | .write, .selected task rest nowMs none =>
    if ∃ j, j ≠ i ∧ (w.calls j).wrote = some (keyOf task nowMs) then none
    else if (w.rows (keyOf task nowMs)).isSome then some .failed
    else some (.written task rest nowMs (nextRow call.view task nowMs none))
  | .commit, .written _ rest _ _ => some (.looping rest)
  | .finish, .looping [] => some .returned
  | _, _ => none

/-- Only a commit is seen by the other calls. -/
def World.rowsAfter (act : Act) : RowKey → Option Progress :=
  match act, (w.calls i).phase with
  | .commit, .written task _ nowMs row => Function.update w.rows (keyOf task nowMs) (some row)
  | _, _ => w.rows

def next (w : World ι) (e : ι × Act) : Option (World ι) :=
  (w.statement tasks e.1 e.2).map fun phase =>
    { rows := w.rowsAfter e.1 e.2
      calls := Function.update w.calls e.1 { w.calls e.1 with phase } }

end Oddzilla.ZillaPass
