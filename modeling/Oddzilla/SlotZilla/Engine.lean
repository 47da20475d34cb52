import Oddzilla.Lib.Keyed
import Oddzilla.Lib.Monitor
import Oddzilla.SlotZilla.Store

/-!
# The engine

What `engine.go` keeps of a running game and derives from it (the windows, whether they
are final, what an open spin settles to), and the poll of a game: a script whose calls go
to the feed and to the store, each a transaction of its own, and whose errors are logged.
The state frames it publishes are left out.
-/

namespace Oddzilla.SlotZilla

open Txn

/-- `status IN ('scheduled', 'live', 'paused')` -/
def GameRow.active (g : GameRow) : Bool :=
  g.status = .scheduled || g.status = .live || g.status = .paused

/-- `ORDER BY placed_at, id` -/
def Db.placedKey (db : Db) (id : SpinId) : Int ×ₗ String :=
  toLex ((db.spins.row id).elim 0 (·.spin.placedAtMs), id.text)

def Db.PlacedBefore (db : Db) (a b : SpinId) : Prop := db.placedKey a ≤ db.placedKey b

instance (db : Db) : DecidableRel db.PlacedBefore := fun a b =>
  inferInstanceAs (Decidable (db.placedKey a ≤ db.placedKey b))

instance (db : Db) : IsTrans SpinId db.PlacedBefore := ⟨fun _ _ _ hab hbc => le_trans hab hbc⟩

instance (db : Db) : Std.Total db.PlacedBefore :=
  ⟨fun a b => le_total (db.placedKey a) (db.placedKey b)⟩

instance (db : Db) : Std.Antisymm db.PlacedBefore where
  antisymm a b hab hba := by
    have hkey : db.placedKey a = db.placedKey b := le_antisymm hab hba
    have htext : a.text = b.text := congrArg (fun k => (ofLex k).2) hkey
    cases a
    cases b
    cases htext
    rfl

/-- `OpenSpins` -/
def Db.openSpins (db : Db) (m : MatchId) : List (SpinId × Spin) :=
  ((db.spinsWhere (·.openOn m)).sort db.PlacedBefore).filterMap fun id =>
    (db.spins.row id).map fun r => (id, r.spin)

namespace Go

/-- The reading of the match clock, `sportradar.Clock`. -/
structure Clock where
  seconds : Int
  running : Bool
  started : Bool
  ended : Bool
  deriving DecidableEq

/-- `game`: the fields that decide what is settled.  A nil map of windows is `none`. -/
structure Game where
  loaded : Bool := false
  events : List Event := []
  windows : Option (Int → Option Window) := none
  firstSeen : Time := 0
  lastOK : Time := 0
  lastFull : Time := 0
  hasClock : Bool := false
  clock : Clock := ⟨0, false, false, false⟩
  /-- the fixture is over -/
  ending : Bool := false
  /-- the open spins have been voided for the current outage of the feed -/
  darkVoided : Bool := false

/-- A lookup in a nil map finds nothing. -/
def Game.windowAt (g : Game) (start : Int) : Window :=
  Go.windowAt (g.windows.getD fun _ => none) start

/-- Nanoseconds. -/
def second : Int := 10 ^ 9

/-- The symbol of the window can no longer change. -/
def windowFinal (w : Window) (clockSeconds : Int) (ended : Bool) (now : Time) (cfg : Config) :
    Bool :=
  let past := w.start + windowSeconds + if ended then 0 else cfg.clockPastSeconds
  if clockSeconds < past then false
  else if w.lastUpdate ≠ 0 ∧ now - w.lastUpdate < cfg.graceSeconds * second then false
  else true

def Game.windowFinal (g : Game) (start : Int) (cfg : Config) (now : Time) : Bool :=
  g.hasClock && Go.windowFinal (g.windowAt start) g.clock.seconds (g.clock.ended || g.ending) now cfg

def roundWindowsOf (windowFrom : Int) : Int × Int × Int :=
  (windowFrom, windowFrom + windowSeconds, windowFrom + 2 * windowSeconds)

def roundEnd (windowFrom : Int) : Int := windowFrom + 3 * windowSeconds

/-- The three windows of the spin are final. -/
def Game.spinFinal (g : Game) (cfg : Config) (now : Time) (sp : Spin) : Bool :=
  let ws := roundWindowsOf sp.windowFrom
  g.windowFinal ws.1 cfg now && g.windowFinal ws.2.1 cfg now && g.windowFinal ws.2.2 cfg now

/-- What `settleSpins` hands to `SettleSpin` for an open spin, from the lines of its paytable
as they are read. -/
def Game.settlement (g : Game) (cfg : Config) (now : Time) (raw : RawLines) (sp : Spin) :
    Option Settlement :=
  let ws := roundWindowsOf sp.windowFrom
  if g.spinFinal cfg now sp then
    match decodePaytable raw with
    | .error _ => none
    | .ok lines =>
      (outcome (g.windowAt ws.1).reel (g.windowAt ws.2.1).reel (g.windowAt ws.2.2).reel lines
        sp.stakeMicro).toOption
  else none

/-! ## Events -/

/-- A row of `Timeline.Rows`. -/
structure FeedRow where
  row : EventRow
  updatedUts : Int
  deriving DecidableEq

structure Timeline where
  rows : List FeedRow
  clock : Clock

/-- A `sr_live_events` row of the match. -/
structure StoredEvent where
  row : EventRow
  updatedUts : Int
  /-- `match_id` is not null -/
  linked : Bool
  updatedAt : Time

/-- The condition of the `DO UPDATE`; the team is not in it. -/
def StoredEvent.differs (e : StoredEvent) (r : FeedRow) : Bool :=
  e.updatedUts ≠ r.updatedUts || e.row.disabled ≠ r.row.disabled || e.row.seconds ≠ r.row.seconds ||
    e.row.symbol ≠ r.row.symbol || !e.linked

def StoredEvent.key (e : StoredEvent) : Int := e.row.srEventId

def Event.key (e : Event) : Int := e.row.srEventId

/-- `sqlUpsertEvent`, with the id it returns. -/
def upsertEvent (now : Time) (r : FeedRow) (events : List StoredEvent) :
    List StoredEvent × Option Int :=
  let written := Keyed.put StoredEvent.key ⟨r.row, r.updatedUts, true, now⟩ events
  match Keyed.find StoredEvent.key r.row.srEventId events with
  | none => (written, some r.row.srEventId)
  | some e => if e.differs r then (written, some r.row.srEventId) else (events, none)

def upsertEvents (now : Time) : List FeedRow → List StoredEvent → List StoredEvent × List Int
  | [], events => (events, [])
  | r :: rows, events =>
    let (events, id) := upsertEvent now r events
    let (events, ids) := upsertEvents now rows events
    (events, id.toList ++ ids)

/-- The loop of `applyEvents`: only new and changed events are stamped. -/
def mergeEvents (now : Time) (changed : List Int) : List FeedRow → List Event → List Event × Bool
  | [], events => (events, false)
  | r :: rows, events =>
    let prev := Keyed.find Event.key r.row.srEventId events
    let touched := decide (r.row.srEventId ∈ changed) || prev.isNone
    let seenAt := if touched then now else prev.elim 0 (·.seenAt)
    let (events, rest) := mergeEvents now changed rows (Keyed.put Event.key ⟨r.row, seenAt⟩ events)
    (events, touched || rest)

/-! ## Calls -/

/-- What the poll of a game calls; each call is a transaction of its own. -/
inductive Call
  /-- the game's row of `SelectActiveGames` -/
  | selectGame
  | loadEvents
  /-- `Timeline` or `TimelineDelta` -/
  | timeline (full : Bool)
  | upsertEvents (rows : List FeedRow)
  | updateGameClock (clock : Clock) (readAt : Time)
  | markGameLive
  | pauseGameByService (note : String)
  | resumeServicePause (note : String)
  | openSpins
  | paytableLines (id : PaytableId)
  | settleSpin (id : SpinId) (sp : Spin) (st : Settlement)
  | voidSpin (id : SpinId) (sp : Spin) (reason : String)
  | endGame (note : Option String)
  | voidGame (note : String)

@[reducible] def Call.Ret : Call → Type
  | .selectGame => Option GameRow
  | .loadEvents => List StoredEvent
  | .timeline _ => Timeline
  | .upsertEvents _ => List Int
  | .updateGameClock .. => Unit
  | .openSpins => List (SpinId × Spin)
  | .paytableLines _ => RawLines
  | _ => Bool

abbrev Poll := Script Call Call.Ret Error

/-- A call whose error is looked at. -/
abbrev attempt (c : Call) : Poll (Except Error c.Ret) := .call c .done

/-! ## The poll -/

/-- `matches.status` -/
inductive FixtureStatus
  | notStarted | live | closed | cancelled | suspended
  deriving DecidableEq, Repr

/-- One tick: the settings, the time, and the fixture as the tick has read it. -/
structure Tick where
  cfg : Config
  now : Time
  fixture : FixtureStatus
  scheduledAt : Time
  reconcileInterval : Time

def neverStartedAfter : Time := 6 * 3600 * second

def noteFeedDark : String := "feed_dark"

def loadEvents (g : Game) : Poll (Except Error Game) := do
  match ← attempt .loadEvents with
  | .error e => return .error e
  | .ok rows =>
    -- the ids are distinct, so the map has an entry for each row
    let events := rows.map fun r => (⟨r.row, r.updatedAt⟩ : Event)
    return .ok { g with events := events, windows := some (buildWindows events), loaded := true }

def applyEvents (now : Time) (tl : Timeline) (g : Game) : Poll (Except Error (Game × Bool)) := do
  if tl.rows = [] then return .ok (g, false)
  else
    match ← attempt (.upsertEvents tl.rows) with
    | .error e => return .error e
    | .ok changed =>
      let merged := mergeEvents now changed tl.rows g.events
      return .ok ({ g with events := merged.1 }, merged.2)

/-- The transitions of `applyClock` behind the two writes. -/
def Game.noteEnd (g : Game) : Game := { g with ending := g.ending || g.clock.ended }

/-- The flag is unset when a write has failed. -/
def applyClock (now : Time) (tl : Timeline) (row : GameRow) (g : Game) : Poll (Game × Bool) := do
  let g := { g with clock := tl.clock, hasClock := true }
  match ← attempt (.updateGameClock tl.clock now) with
  | .error _ => return (g, false)
  | .ok _ =>
    if row.status = .scheduled ∧ tl.clock.started then
      match ← attempt .markGameLive with
      | .error _ => return (g, false)
      | .ok _ => return (g.noteEnd, true)
    else return (g.noteEnd, true)

/-- The loop of `voidOpenSpins`; a void that fails is logged. -/
def voidEach (reason : String) : List (SpinId × Spin) → Poll Unit
  | [] => return ()
  | (id, sp) :: spins => do
    let _ ← attempt (.voidSpin id sp reason)
    voidEach reason spins

def voidOpenSpins (reason : String) : Poll Unit := do
  match ← attempt .openSpins with
  | .error _ => return ()
  | .ok spins => voidEach reason spins

def onFeedSilence (t : Tick) (row : GameRow) (g : Game) : Poll Game := do
  let since := if g.lastOK = 0 then g.firstSeen else g.lastOK
  if g.darkVoided ∨ t.now - since < t.cfg.feedDarkVoidSeconds * second then return g
  else
    voidOpenSpins "feed_dark"
    if row.status = .live then
      let _ ← attempt (.pauseGameByService noteFeedDark)
      return { g with darkVoided := true }
    else return { g with darkVoided := true }

def onFeedBack (row : GameRow) (g : Game) : Poll Game := do
  if ¬ g.darkVoided then return g
  else if row.status = .paused ∧ row.pausedBy = none ∧ row.note = some noteFeedDark then
    let _ ← attempt (.resumeServicePause noteFeedDark)
    return { g with darkVoided := false }
  else return { g with darkVoided := false }

/-- Where a poll goes on after the feed. -/
inductive Next
  | stop | finish | settle
  deriving DecidableEq

/-- The windows are built again when an event may have changed. -/
def Game.rebuild (g : Game) (changed : Bool) : Game :=
  if changed || g.windows.isNone then { g with windows := some (buildWindows g.events) } else g

/-- `pollGame` behind a successful fetch, up to the settlement. -/
def absorb (t : Tick) (row : GameRow) (tl : Timeline) (g : Game) : Poll (Game × Next) := do
  match ← applyEvents t.now tl g with
  | .error _ => return (g, .stop)
  | .ok (g, changed) =>
    match ← applyClock t.now tl row g with
    | (g, false) => return (g, .stop)
    | (g, true) => return (g.rebuild changed, .settle)

/-- `pollGame` from the stored events on, up to the settlement. -/
def refresh (t : Tick) (row : GameRow) (g : Game) : Poll (Game × Next) := do
  match ← (if g.loaded then return .ok g else loadEvents g) with
  | .error _ => return (g, .stop)
  | .ok g =>
    let full := decide (g.lastFull = 0 ∨ t.reconcileInterval ≤ t.now - g.lastFull)
    match ← attempt (.timeline full) with
    | .error _ =>
      let g ← onFeedSilence t row g
      return (g, if g.ending then .finish else .stop)
    | .ok tl =>
      let g ← onFeedBack row { g with lastOK := t.now, lastFull := if full then t.now else g.lastFull }
      absorb t row tl g

/-- The loop of `settleSpins`. -/
def settleEach (t : Tick) (g : Game) : List (SpinId × Spin) → Poll Unit
  | [] => return ()
  | (id, sp) :: spins => do
    if ¬ g.spinFinal t.cfg t.now sp then settleEach t g spins
    else
      match ← attempt (.paytableLines sp.paytableId) with
      | .error _ => settleEach t g spins
      | .ok raw =>
        match g.settlement t.cfg t.now raw sp with
        | none => settleEach t g spins
        | some st =>
          let _ ← attempt (.settleSpin id sp st)
          settleEach t g spins

def settleSpins (t : Tick) (g : Game) : Poll Unit := do
  match ← attempt .openSpins with
  | .error _ => return ()
  | .ok spins => settleEach t g spins

/-- The clock has reached the end of the round, so the spin settles when its grace is over. -/
def Game.reached (g : Game) (sp : Spin) : Bool :=
  g.hasClock && decide (roundEnd sp.windowFrom ≤ g.clock.seconds)

/-- The loop of `finishGame`: void what the clock has not reached and count the rest. -/
def finishEach (g : Game) : List (SpinId × Spin) → Poll Nat
  | [] => return 0
  | (id, sp) :: spins => do
    if g.reached sp then
      let remaining ← finishEach g spins
      return remaining + 1
    else
      let _ ← attempt (.voidSpin id sp "match_ended")
      finishEach g spins

def finishGame (g : Game) : Poll Unit := do
  match ← attempt .openSpins with
  | .error _ => return ()
  | .ok spins =>
    let remaining ← finishEach g spins
    if 0 < remaining then return ()
    else
      let _ ← attempt (.endGame none)
      return ()

/-- `pollGame` from the stored events on. -/
def pollLive (t : Tick) (row : GameRow) (g : Game) : Poll Game := do
  let (g, next) ← refresh t row g
  match next with
  | .stop => return g
  | .finish =>
    finishGame g
    return g
  | .settle =>
    settleSpins t g
    if g.ending then
      finishGame g
      return g
    else return g

def pollGame (t : Tick) (row : GameRow) (g : Game) : Poll Game := do
  if t.fixture = .cancelled then
    voidOpenSpins "match_cancelled"
    let _ ← attempt (.voidGame "match_cancelled")
    return g
  else if t.fixture = .closed then pollLive t row { g with ending := true }
  else if row.status = .scheduled ∧ ¬ g.hasClock ∧ neverStartedAfter < t.now - t.scheduledAt then
    let _ ← attempt (.endGame (some "never_started"))
    return g
  else pollLive t row g

/-- A game's share of a tick; `none` is a game that the engine does not know.  The replay of a
demo game is left out. -/
def tick (t : Tick) (g : Option Game) : Poll (Option Game) := do
  match ← attempt .selectGame with
  | .error _ => return g
  | .ok none => return none
  | .ok (some row) =>
    let g := g.getD { firstSeen := t.now }
    if row.isDemo then return some g
    else
      let g ← pollGame t row g
      return some g

/-- An engine from its start on. -/
def ticks : List Tick → Option Game → Poll Unit
  | [], _ => return ()
  | t :: ts, g => do
    let g ← tick t g
    ticks ts g

/-! ## The store and the feed -/

/-- What the calls work on: the rows, the events of the match, and what the feed would answer. -/
structure Hall where
  db : Db
  events : List StoredEvent
  feed : Timeline
  /-- the clock of the database -/
  now : Time
  /-- A note for the proofs: since the poll has listed the open spins, or has found the game
  scheduled, no void of it has failed and no spin has been placed on the game. -/
  calm : Bool := false
  /-- A note for the proofs: the last version of every event that the feed has answered. -/
  fetched : List EventRow := []

namespace Hall

/-- A void that fails is noted. -/
def missed (s : Hall) (c : Call) : Hall :=
  match c with
  | .voidSpin .. => { s with calm := false }
  | _ => s

/-- A call that is a transaction on the rows. -/
def transact {α : Type} (c : Call) (p : Tx α) (s : Hall) : Except Error α × Hall :=
  match engine.transact .quiet p s.db with
  | (.ok a, db) => (.ok a, { s with db := db })
  | (.error e, _) => (.error e, s.missed c)

end Hall

/-- `UPDATE slotzilla_games … WHERE match_id = $1 AND …`, and whether a row was updated. -/
def updateGame (m : MatchId) (guard : GameRow → Bool) (set : GameRow → GameRow) : Tx Bool :=
  SlotZilla.call (.updateGame m guard set)

def setClock (clock : Clock) (readAt : Time) (g : GameRow) : GameRow :=
  { g with
    clockSeconds := some clock.seconds
    clockRunning := clock.running
    clockReadAtMs := some (readAt / 10 ^ 6) }

/-- The answer of a call for the game `m`. -/
def exec (m : MatchId) : (c : Call) → Hall → Except Error c.Ret × Hall
  | .selectGame, s =>
    let row := (s.db.games m).filter fun g => g.active || g.isDemo && g.status = .ended
    (.ok row, { s with calm := row.any (·.status = .scheduled) })
  | .loadEvents, s => (.ok s.events, s)
  | .timeline _, s =>
    (.ok s.feed, { s with fetched := s.feed.rows.foldl (fun es r => Keyed.put EventRow.srEventId r.row es) s.fetched })
  | .upsertEvents rows, s =>
    let written := upsertEvents s.now rows s.events
    (.ok written.2, { s with events := written.1 })
  | .updateGameClock clock readAt, s => s.transact (.updateGameClock clock readAt) do
    let _ ← updateGame m (fun _ => true) (setClock clock readAt)
    return ()
  | .markGameLive, s => s.transact .markGameLive
    (updateGame m (·.status = .scheduled) fun g => { g with status := .live })
  | .pauseGameByService note, s => s.transact (.pauseGameByService note)
    (updateGame m (·.status = .live) fun g => { g with status := .paused, pausedBy := none, note := some note })
  | .resumeServicePause note, s => s.transact (.resumeServicePause note)
    (updateGame m (fun g => g.status = .paused && g.pausedBy = none && g.note = some note) fun g =>
      { g with status := .live, note := none })
  | .openSpins, s => (.ok (s.db.openSpins m), { s with calm := true })
  | .paytableLines id, s =>
    match s.db.paytables id with
    | none => (.error (.msg "no rows in result set"), s)
    | some raw => (.ok raw, s)
  | .settleSpin id sp st, s => s.transact (.settleSpin id sp st) (settleSpinTx id sp st)
  | .voidSpin id sp reason, s => s.transact (.voidSpin id sp reason) (voidSpinTx id sp reason)
  | .endGame note, s => s.transact (.endGame note)
    (updateGame m GameRow.active fun g => { g with status := .ended, note := note.or g.note })
  | .voidGame note, s => s.transact (.voidGame note)
    (updateGame m GameRow.active fun g => { g with status := .voided, note := some note })

def hall (m : MatchId) : Server Hall Error Call Call.Ret := ⟨exec m⟩

def Call.writes : Call → Bool
  | .selectGame | .loadEvents | .timeline _ | .openSpins | .paytableLines _ => false
  | _ => true

/-- A call fails before it takes effect, or its answer is lost. -/
inductive Fails (m : MatchId) (c : Call) (s : Hall) : Hall → Prop
  | undone : Fails m c s (s.missed c)
  | lost (h : c.writes = true) : Fails m c s (exec m c s).2

end Go

end Oddzilla.SlotZilla
