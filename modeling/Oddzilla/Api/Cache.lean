import Mathlib.Logic.Function.Basic
import Oddzilla.Lib.Trace

/-!
# The fetch-aside cache

`cached` and `cachedSwr` of `lib/cache.ts` on one key of Redis.  A call is cut where it waits:
for the reply of `GET`, for a loader, for the reply of `SET`.  Between two cuts it runs
alone, so looking into the in-flight map and starting a loader are one step.  The data may
change and the key be deleted or expire at any time.
-/

namespace Oddzilla.Cache

/-! ## Values -/

/-- A value, with the number of changes of the data before it was loaded. -/
structure Loaded (V : Type) where
  value : V
  version : Nat

/-- What stands under the key.  No value that `cached` stores looks like an envelope. -/
inductive Entry (V : Type)
  | plain (x : Loaded V)
  /-- `f` is when the value stops being fresh. -/
  | envelope (x : Loaded V) (f : Int)
  | corrupt

/-- What a call hands out; `cached` takes an envelope for a value. -/
inductive Reply (V : Type)
  | value (x : Loaded V)
  | envelope (x : Loaded V) (f : Int)

variable {V ι : Type}

def Entry.loaded : Entry V → Option (Loaded V)
  | .plain x | .envelope x _ => some x
  | .corrupt => none

def Reply.loaded : Reply V → Loaded V
  | .value x | .envelope x _ => x

/-- `JSON.parse` in `cached` -/
def parse : Entry V → Option (Reply V)
  | .plain x => some (.value x)
  | .envelope x f => some (.envelope x f)
  | .corrupt => none

def parseEnvelope : Entry V → Option (Loaded V × Int)
  | .envelope x f => some (x, f)
  | .plain _ | .corrupt => none

/-! ## Calls and loader runs -/

inductive Mode
  | cached (ttlSeconds : Nat)
  | cachedSwr (freshSeconds staleSeconds : Nat)
  deriving DecidableEq

inductive Phase (V ι : Type)
  | notCalled
  | reading
  | read (raw : Option (Entry V))
  /-- the loader run that a call has started -/
  | awaiting (run : ι)
  /-- `none` is the loader's rejection. -/
  | returned (answer : Option (Reply V))

structure Call (V ι : Type) where
  mode : Mode
  phase : Phase V ι := .notCalled
  /-- The changes whose `DEL` was through when the call started. -/
  busted : Nat := 0

/-- The loader run that a call starts. -/
inductive Run (V : Type)
  | idle
  | loading
  /-- Its value is still to be stored. -/
  | loaded (x : Loaded V)
  /-- The promise is settled and in the map. -/
  | settled (result : Option (Loaded V))
  /-- It has left the map. -/
  | released (result : Option (Loaded V))

def Run.value : Run V → Option (Loaded V)
  | .loaded x => some x
  | .settled result | .released result => result
  | .idle | .loading => none

def Run.result : Run V → Option (Option (Loaded V))
  | .settled result | .released result => some result
  | .idle | .loading | .loaded _ => none

/-- The loader or the `SET` is running. -/
def Run.inProgress : Run V → Bool
  | .loading | .loaded _ => true
  | .idle | .settled _ | .released _ => false

/-- The run is in progress or still in the map. -/
def Run.alive : Run V → Bool
  | .loading | .loaded _ | .settled _ => true
  | .idle | .released _ => false

/-- The data, Redis, the in-flight map and the runs. -/
structure Shared (V ι : Type) where
  /-- how often the data has changed -/
  version : Nat
  entry : Option (Entry V)
  inflight : Option ι
  runs : ι → Run V
  /-- The changes whose `DEL` is through. -/
  busted : Nat := 0

structure World (V ι : Type) where
  shared : Shared V ι
  calls : ι → Call V ι

inductive Event (ι : Type)
  | call (i : ι)
  | get (i : ι)
  | getFailed (i : ι)
  | decide (i : ι) (nowMs : Int)
  | load (i : ι)
  | loadFailed (i : ι)
  | store (i : ι) (nowMs : Int)
  | storeFailed (i : ι)
  | release (i : ι)
  | resume (i : ι)
  | change
  /-- A `DEL` that was sent after `since` changes. -/
  | del (since : Nat)
  | expire

variable [DecidableEq ι] (loader : Nat → V) (s : Shared V ι) (i : ι)

def Shared.setRun (run : Run V) : Shared V ι := { s with runs := Function.update s.runs i run }

/-- `refresh`, and the miss of `cached`: the run to wait for. -/
def Shared.refresh : Shared V ι × ι :=
  match s.inflight with
  | some existing => (s, existing)
  | none => ({ s with runs := Function.update s.runs i .loading, inflight := some i }, i)

/-- What follows the reply of `GET`. -/
def Shared.decide (mode : Mode) (raw : Option (Entry V)) (nowMs : Int) : Shared V ι × Phase V ι :=
  match mode with
  | .cached _ =>
    match raw.bind parse with
    | some reply => (s, .returned (some reply))
    | none => ((s.refresh i).1, .awaiting (s.refresh i).2)
  | .cachedSwr .. =>
    match raw.bind parseEnvelope with
    | some (x, f) => (if f ≤ nowMs then (s.refresh i).1 else s, .returned (some (.value x)))
    | none => ((s.refresh i).1, .awaiting (s.refresh i).2)

/-- What is stored with `SET … EX`. -/
def entryOf (mode : Mode) (x : Loaded V) (nowMs : Int) : Entry V :=
  match mode with
  | .cached _ => .plain x
  | .cachedSwr freshSeconds _ => .envelope x (nowMs + freshSeconds * 1000)

/-- The caller that started a run takes it out of the map, in `cached`. -/
def Shared.finish (mode : Mode) (run : ι) : Shared V ι :=
  match mode, s.runs i with
  | .cached _, .settled result =>
    if run = i then { s.setRun i (.released result) with inflight := none } else s
  | _, _ => s

def World.setCall (w : World V ι) (i : ι) (s : Shared V ι) (phase : Phase V ι) : World V ι :=
  { shared := s, calls := Function.update w.calls i { w.calls i with phase } }

def step (w : World V ι) : Event ι → Option (World V ι)
  | .call i =>
    match (w.calls i).phase with
    | .notCalled =>
      let called := { w.calls i with phase := .reading, busted := w.shared.busted }
      some { w with calls := Function.update w.calls i called }
    | _ => none
  | .get i =>
    match (w.calls i).phase with
    | .reading => some (w.setCall i w.shared (.read w.shared.entry))
    | _ => none
  | .getFailed i =>
    match (w.calls i).phase with
    | .reading => some (w.setCall i w.shared (.read none))
    | _ => none
  | .decide i nowMs =>
    match (w.calls i).phase with
    | .read raw =>
      let decided := w.shared.decide i (w.calls i).mode raw nowMs
      some (w.setCall i decided.1 decided.2)
    | _ => none
  | .load i =>
    match w.shared.runs i with
    | .loading =>
      let x : Loaded V := ⟨loader w.shared.version, w.shared.version⟩
      some { w with shared := w.shared.setRun i (.loaded x) }
    | _ => none
  | .loadFailed i =>
    match w.shared.runs i with
    | .loading => some { w with shared := w.shared.setRun i (.settled none) }
    | _ => none
  | .store i nowMs =>
    match w.shared.runs i with
    | .loaded x =>
      let stored := w.shared.setRun i (.settled (some x))
      some { w with shared := { stored with entry := some (entryOf (w.calls i).mode x nowMs) } }
    | _ => none
  | .storeFailed i =>
    match w.shared.runs i with
    | .loaded x => some { w with shared := w.shared.setRun i (.settled (some x)) }
    | _ => none
  | .release i =>
    match (w.calls i).mode, w.shared.runs i with
    | .cachedSwr .., .settled result =>
      let settled := w.shared.setRun i (.released result)
      some { w with shared := { settled with inflight := none } }
    | _, _ => none
  | .resume i =>
    match (w.calls i).phase with
    | .awaiting run => (w.shared.runs run).result.map fun result =>
      w.setCall i (w.shared.finish i (w.calls i).mode run) (.returned (result.map .value))
    | _ => none
  | .change => some { w with shared := { w.shared with version := w.shared.version + 1 } }
  | .del since =>
    if since ≤ w.shared.version then
      some { w with shared := { w.shared with entry := none, busted := max w.shared.busted since } }
    else none
  | .expire => some { w with shared := { w.shared with entry := none } }

end Oddzilla.Cache
