import Mathlib
import Oddzilla.Store.Ledger

/-!
# The rules of SlotZilla

The reel of a window, the line of three reels and what it pays: once as
`rules/rules.go` and `engine/windows.go` have it, once as `types/src/slotzilla.ts` and
`slotzilla/service.ts` do.  The Go service settles with its own port; the api prices a
spin and draws its reels with the other.  Seconds and ids are integers; an id is
compared as its decimal text, one byte a character.
-/

namespace Oddzilla.SlotZilla

inductive Symbol
  | P3 | P2 | FT | MISS | FOUL | NONE
  deriving DecidableEq, Repr

def Symbol.text : Symbol → String
  | P3 => "P3"
  | P2 => "P2"
  | FT => "FT"
  | MISS => "MISS"
  | FOUL => "FOUL"
  | NONE => "NONE"

/-- `Rank` and `SYMBOL_RANK` -/
def Symbol.rank : Symbol → Nat
  | P3 => 6
  | P2 => 5
  | FT => 4
  | MISS => 3
  | FOUL => 2
  | NONE => 1

inductive Team
  | home | away
  deriving DecidableEq, Repr

def Team.text : Team → String
  | home => "home"
  | away => "away"

/-- The columns of a `sr_live_events` row that a reel is derived from. -/
structure EventRow where
  srEventId : Int
  symbol : Option Symbol
  team : Option Team
  seconds : Int
  disabled : Bool
  deriving DecidableEq

def windowSeconds : Int := 5

/-- Go's `floorDiv` and `Math.floor` both round down. -/
def windowStartOf (clockSeconds : Int) : Int := clockSeconds / windowSeconds * windowSeconds

/-- Twelve keys: two reels on the symbol, or all three. -/
inductive LineKey
  | any2 (s : Symbol)
  | all3 (s : Symbol)
  deriving DecidableEq, Repr

def LineKey.text : LineKey → String
  | any2 s => "any2:" ++ s.text
  | all3 s => "all3:" ++ s.text

def symbols : List Symbol := [.P3, .P2, .FT, .MISS, .FOUL, .NONE]

def lineKeys : List LineKey := symbols.flatMap fun s => [.all3 s, .any2 s]

theorem mem_lineKeys (k : LineKey) : k ∈ lineKeys := by
  cases k with
  | any2 s => cases s <;> decide
  | all3 s => cases s <;> decide

/-- A paytable: a multiplier in hundredths for some of the lines. -/
abbrev PaytableLines := LineKey → Option Int

def two63 : Int := 2 ^ 63

/-! ## Go -/

namespace Go

structure ReelEvent where
  symbol : Option Symbol
  seconds : Int
  disabled : Bool
  team : String
  eventId : String

structure Reel where
  symbol : Symbol
  team : String := ""
  eventId : String := ""
  deriving DecidableEq

/-- By length, then lexically; an empty id sorts after any id. -/
def compareIDs (a b : String) : Int :=
  if a = "" ∧ b = "" then 0
  else if a = "" then 1
  else if b = "" then -1
  else if a.length ≠ b.length then (a.length : Int) - b.length
  else if a < b then -1
  else if b < a then 1
  else 0

/-- One event of the loop. -/
def reelStep (windowFrom : Int) (best : Option ReelEvent) (e : ReelEvent) : Option ReelEvent :=
  match e.symbol with
  | none => best
  | some s =>
    if e.disabled then best
    else if e.seconds < windowFrom ∨ windowFrom + windowSeconds ≤ e.seconds then best
    else
      match best with
      | none => some e
      | some b =>
        let rb := b.symbol.elim 0 Symbol.rank
        if rb < s.rank then some e
        else if s.rank = rb then
          if e.seconds < b.seconds then some e
          else if e.seconds = b.seconds ∧ compareIDs e.eventId b.eventId < 0 then some e
          else best
        else best

def reelForWindow (events : List ReelEvent) (windowFrom : Int) : Reel :=
  match events.foldl (reelStep windowFrom) none with
  | none => { symbol := .NONE }
  | some best => { symbol := best.symbol.getD .NONE, team := best.team, eventId := best.eventId }

/-- Moments of the wall clock; `0` is the zero `time.Time`. -/
abbrev Time := Int

/-- The engine's copy of a stored event. -/
structure Event where
  row : EventRow
  seenAt : Time

structure Window where
  start : Int
  reel : Reel
  lastUpdate : Time := 0

def Event.reelEvent (e : Event) : ReelEvent where
  symbol := e.row.symbol
  seconds := e.row.seconds
  disabled := e.row.disabled
  team := e.row.team.elim "" Team.text
  eventId := toString e.row.srEventId

/-- The loop of `BuildWindows` over the events, in the order the map yields them. -/
def group (events : List Event) : (Int → List ReelEvent) × (Int → Time) :=
  events.foldl (fun g e =>
    let start := windowStartOf e.row.seconds
    (Function.update g.1 start (g.1 start ++ [e.reelEvent]),
      Function.update g.2 start (max (g.2 start) e.seenAt))) (fun _ => [], fun _ => 0)

/-- Windows without an event are absent. -/
def buildWindows (events : List Event) : Int → Option Window := fun start =>
  if (group events).1 start = [] then none
  else some ⟨start, reelForWindow ((group events).1 start) start, (group events).2 start⟩

def windowAt (ws : Int → Option Window) (start : Int) : Window :=
  (ws start).getD { start := start, reel := { symbol := .NONE } }

def evaluateLine (a b c : Symbol) : Option LineKey :=
  if a = b ∧ b = c then some (.all3 a)
  else if a = b then some (.any2 a)
  else if b = c then some (.any2 b)
  else if a = c then some (.any2 a)
  else none

/-- The product is formed exactly and refused when it does not fit `int64`. -/
def payoutMicro (stakeMicro multiplierX100 : Int) : Except Error Int :=
  if multiplierX100 < 0 then .error (.msg "multiplierX100 must be a non-negative integer")
  else if stakeMicro < 0 then .error (.msg "stakeMicro must be non-negative")
  else if (stakeMicro * multiplierX100).tdiv 100 < two63 then
    .ok ((stakeMicro * multiplierX100).tdiv 100)
  else .error (.msg "payout overflows int64")

end Go

/-! ## TypeScript -/

namespace Ts

structure ReelEvent where
  symbol : Option Symbol
  seconds : Int
  disabled : Bool
  team : Option Team
  eventId : Option String

structure Reel where
  symbol : Symbol
  team : Option Team
  eventId : Option String
  deriving DecidableEq

/-- An absent id and an empty one are both falsy. -/
def idText (id : Option String) : String := id.getD ""

def compareIds (a b : Option String) : Int :=
  if idText a = "" ∧ idText b = "" then 0
  else if idText a = "" then 1
  else if idText b = "" then -1
  else if (idText a).length ≠ (idText b).length then ((idText a).length : Int) - (idText b).length
  else if idText a < idText b then -1
  else if idText b < idText a then 1
  else 0

/-- One event of the loop. -/
def reelStep (windowFrom : Int) (best : Option ReelEvent) (e : ReelEvent) : Option ReelEvent :=
  match e.symbol with
  | none => best
  | some s =>
    if e.disabled then best
    else if e.seconds < windowFrom ∨ windowFrom + windowSeconds ≤ e.seconds then best
    else
      match best with
      | none => some e
      | some b =>
        let rb := b.symbol.elim 0 Symbol.rank
        if rb < s.rank then some e
        else if s.rank = rb then
          if e.seconds < b.seconds then some e
          else if e.seconds = b.seconds ∧ compareIds e.eventId b.eventId < 0 then some e
          else best
        else best

def reelForWindow (events : List ReelEvent) (windowFrom : Int) : Reel :=
  match events.foldl (reelStep windowFrom) none with
  | none => ⟨.NONE, none, none⟩
  | some best => ⟨best.symbol.getD .NONE, best.team, best.eventId⟩

/-- How the api reads a stored event. -/
def reelEvent (r : EventRow) : ReelEvent where
  symbol := r.symbol
  seconds := r.seconds
  disabled := r.disabled
  team := r.team
  eventId := some (toString r.srEventId)

structure Window where
  start : Int
  symbol : Symbol
  team : Option Team
  eventId : Option String
  final : Bool

/-- The grid from `first` to `last`. -/
def gridFrom (first last : Int) : List Int :=
  (List.range (((last - first) / windowSeconds + 1).toNat)).map fun n => first + n * windowSeconds

def windowsFromEvents (events : List ReelEvent) (clockSeconds clockPastSeconds lookback : Int) :
    List Window :=
  let last := windowStartOf (max 0 clockSeconds)
  let first := max 0 (windowStartOf (max 0 (clockSeconds - lookback)))
  (gridFrom first last).map fun start =>
    let reel := reelForWindow events start
    ⟨start, reel.symbol, reel.team, reel.eventId,
      decide (start + windowSeconds + clockPastSeconds ≤ clockSeconds)⟩

def evaluateLine (a b c : Symbol) : Option LineKey :=
  if a = b ∧ b = c then some (.all3 a)
  else if a = b then some (.any2 a)
  else if b = c then some (.any2 b)
  else if a = c then some (.any2 a)
  else none

def payoutMicro (stakeMicro multiplierX100 : Int) : Except Error Int :=
  if multiplierX100 < 0 then .error (.msg "multiplierX100 must be a non-negative integer")
  else .ok ((stakeMicro * multiplierX100).tdiv 100)

def maxMultiplierX100 (lines : PaytableLines) : Int :=
  lineKeys.foldl (fun m k => max m ((lines k).getD 0)) 0

/-- Stake × the top line, bounded by the operator's maximum payout. -/
def exposureMicro (stakeMicro : Int) (lines : PaytableLines) (maxPayoutMicro : Int) :
    Except Error Int :=
  (payoutMicro stakeMicro (maxMultiplierX100 lines)).map fun raw =>
    if raw < maxPayoutMicro then raw else maxPayoutMicro

end Ts

end Oddzilla.SlotZilla
