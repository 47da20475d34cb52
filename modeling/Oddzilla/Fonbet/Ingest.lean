import Mathlib.Logic.Equiv.Nat
import Oddzilla.Feed.Catalog
import Oddzilla.Fonbet.Mapper
import Oddzilla.Lib.Assoc
import Oddzilla.Lib.Process

/-!
# The snapshot ingester

fonbet-ingester keeps the last line in memory, compares each new snapshot with it and
writes what changed to Postgres, one statement at a time, then the changed prices to the
`odds.raw` stream.  The rows are the provider's own: every statement names its matches
or filters by the provider's URN.  The frames for open pages, the live score, the market
descriptions and the counters of a cycle are left out.

A Go map is an `Assoc`; the state of a match is handed on while it is worked at and stored
at the end, since after an error `Apply` drops it.
-/

namespace Oddzilla.Fonbet

open Catalog Txn

/-! ## Rows -/

inductive MatchStatus
  | notStarted
  | live
  | suspended
  | closed
  | cancelled
  deriving DecidableEq

/-- Neither finished nor called off: `status IN ('not_started', 'live')`. -/
def MatchStatus.isOpen (s : MatchStatus) : Bool := s = .notStarted || s = .live

/-- The row id of an event's match; `provider_urn` is unique. -/
def matchRow (event : Int) : MatchId := Equiv.intEquivNat event

/-- A row of `matches`; its event is the one in `provider_urn`. -/
structure EventRow where
  event : Int
  homeTeam : List Char
  awayTeam : List Char
  scheduledAt : Option Int
  status : MatchStatus

/-- The first id of `provider_market_type_id_seq`, clear of the composed ones. -/
def typeIdStart : Int := 3000000

/-- The table `provider_market_types` with its sequence. -/
structure TypeTable where
  ids : Assoc MarketTypeKey Int
  next : Int
  start_le : typeIdStart ≤ next
  bounds : ∀ k id, ids.lookup k = some id → typeIdStart ≤ id ∧ id < next
  injective : ∀ k k' id, ids.lookup k = some id → ids.lookup k' = some id → k = k'

/-- `INSERT … ON CONFLICT DO NOTHING`; the sequence moves on in any case. -/
def TypeTable.allocate (t : TypeTable) (key : MarketTypeKey) : TypeTable where
  ids := if (t.ids.lookup key).isSome then t.ids else t.ids.insert key t.next
  next := t.next + 1
  start_le := by have := t.start_le; omega
  bounds k id h := by
    have hstart := t.start_le
    split at h
    · have := t.bounds k id h
      omega
    · by_cases hk : k = key
      · subst hk
        rw [AList.lookup_insert] at h
        cases h
        omega
      · rw [AList.lookup_insert_ne hk] at h
        have := t.bounds k id h
        omega
  injective k k' id h h' := by
    split at h
    · next hsome =>
      rw [if_pos hsome] at h'
      exact t.injective k k' id h h'
    · next hnone =>
      rw [if_neg hnone] at h'
      by_cases hk : k = key
      · by_cases hk' : k' = key
        · rw [hk, hk']
        · subst hk
          rw [AList.lookup_insert] at h
          rw [AList.lookup_insert_ne hk'] at h'
          cases h
          exact absurd (t.bounds k' t.next h').2 (lt_irrefl _)
      · rw [AList.lookup_insert_ne hk] at h
        by_cases hk' : k' = key
        · subst hk'
          rw [AList.lookup_insert] at h'
          cases h'
          exact absurd (t.bounds k t.next h).2 (lt_irrefl _)
        · rw [AList.lookup_insert_ne hk'] at h'
          exact t.injective k k' id h h'

/-- One entry of `odds.raw`. -/
structure OddsEvent where
  marketId : MarketKey
  outcomeId : OutcomeId
  rawOdds : ℚ
  active : Bool
  sourceTs : Int

/-- What the ingester writes to: its rows and, as `said`, the entries it has ever sent to
`odds.raw`, oldest first.  The stream keeps the youngest of them: each `XADD` trims it to
about `MaxLenApprox` entries, those of other services included, and nobody here reads it. -/
structure Backend where
  types : TypeTable
  matches_ : Assoc MatchId EventRow
  markets : Assoc MarketKey Catalog.MarketRow
  outcomes : Assoc (MarketKey × OutcomeId) Catalog.OutcomeRow
  said : List OddsEvent

/-! ## Calls -/

/-- What `UpsertMatch` writes of a match. -/
structure MatchUpsert where
  event : Int
  homeTeam : List Char
  awayTeam : List Char
  scheduledAt : Option Int
  status : MatchStatus

/-- Status is written on insert only. -/
def MatchUpsert.row (m : MatchUpsert) : Option EventRow → EventRow
  | none => ⟨m.event, m.homeTeam, m.awayTeam, m.scheduledAt, m.status⟩
  | some r =>
    { r with
      homeTeam := if m.homeTeam ≠ [] then m.homeTeam else r.homeTeam
      awayTeam := if m.awayTeam ≠ [] then m.awayTeam else r.awayTeam
      scheduledAt := m.scheduledAt.or r.scheduledAt }

/-- What a market's upsert returns: its row and the status it now has. -/
structure MarketUpsertResult where
  id : MarketKey
  newStatus : Int

/-- An outcome as `LoadProviderState` reads it. -/
structure StoredOutcome where
  outcomeId : OutcomeId
  rawOdds : Option ℚ
  active : Bool
  unpublished : Bool

/-- A market as `LoadProviderState` reads it, with its outcomes. -/
structure StoredMarket where
  id : MarketKey
  status : Int
  outcomes : List StoredOutcome

/-- A match as `LoadProviderState` reads it, with its markets. -/
structure StoredMatch where
  id : MatchId
  row : EventRow
  markets : List StoredMarket

/-- `XAddArgs.MaxLen`; the trimming is approximate. -/
def MaxLenApprox : Nat := 100000

/-- The calls that leave the process: the statements, `XADD` and the context. -/
inductive Call
  | loadMarketTypes
  | ensureMarketTypes (keys : List MarketTypeKey)
  | loadMatches
  | loadMarkets
  | ensureCatalog (event : Int)
  | upsertMatch (m : MatchUpsert)
  | updateMatchStatus (matchId : MatchId) (status : MatchStatus)
  | upsertMarketsBulk (markets : List MarketUpsert)
  | upsertOutcomesBulk (rows : List OutcomeUpsert)
  | deactivateOutcomes (outcomes : List (MarketKey × OutcomeId)) (ts : Int)
  | setMarketsStatus (marketIds : List MarketKey) (status ts : Int)
  | countActiveProviderMarkets
  | suspendProviderCatalog
  | xadd (maxLen : Nat) (ev : OddsEvent)
  | ctxErr

@[reducible] def Call.Ret : Call → Type
  | .loadMarketTypes => Assoc MarketTypeKey Int
  | .ensureMarketTypes _ => List (MarketTypeKey × Int)
  | .loadMatches => List (MatchId × EventRow)
  | .loadMarkets => List StoredMarket
  | .upsertMatch _ => MatchId
  | .upsertMarketsBulk _ => List MarketUpsertResult
  | .countActiveProviderMarkets => Nat
  | _ => Unit

/-- The errors of the ingester; a `store` error stands for any of the driver's. -/
inductive IngestErr
  | store
  | repeatedRow
  | noDbId
  | snapshotShrunk
  | cancelled
  deriving DecidableEq

/-- `status IN ('not_started', 'live')` of the market's match. -/
def Backend.offers (b : Backend) (k : MarketKey) : Bool :=
  ((b.matches_.lookup k.matchId).map fun r => r.status.isOpen).getD false

/-- The transition, unless the guard of the statement refuses it. -/
def nextStatus (status : MatchStatus) (old : MatchStatus) : MatchStatus :=
  if old = .closed ∨ old = .cancelled ∨ status = .notStarted then old else status

/-- The markets of the first query's matches that are not terminal, with their outcomes. -/
def Backend.storedMarkets (b : Backend) : List StoredMarket :=
  (b.markets.pairs.filter fun kr => b.offers kr.1 && !isTerminal kr.2.status).map fun kr =>
    { id := kr.1
      status := kr.2.status
      outcomes := (b.outcomes.pairs.filter fun o => o.1.1 = kr.1).map fun o =>
        ⟨o.1.2, o.2.rawOdds, o.2.active, o.2.rawOdds.isSome && o.2.publishedOdds.isNone⟩ }

def Backend.update (b : Backend) (w : Statement) : Backend :=
  { b with markets := b.markets.mapVal fun k r => (w (fun _ => none) k (some r)).getD r }

/-- `UPDATE markets SET status = -1 … WHERE status = 1` on the open matches. -/
def SuspendProviderCatalog (b : Backend) : Statement :=
  updateWhere (fun _ k r => r.status = 1 && b.offers k) fun r => { r with status := -1 }

/-- The answer of a call and the rows after it. -/
def Backend.exec : (call : Call) → Backend → Except IngestErr call.Ret × Backend
  | .loadMarketTypes, b => (.ok b.types.ids, b)
  | .ensureMarketTypes keys, b =>
    let types := keys.foldl TypeTable.allocate b.types
    (.ok (keys.filterMap fun k => (types.ids.lookup k).map fun id => (k, id)),
      { b with types := types })
  | .loadMatches, b => (.ok (b.matches_.pairs.filter fun r => r.2.status.isOpen), b)
  | .loadMarkets, b => (.ok b.storedMarkets, b)
  | .ensureCatalog _, b => (.ok (), b)
  | .upsertMatch m, b =>
    (.ok (matchRow m.event), { b with
      matches_ := b.matches_.insert (matchRow m.event)
        (m.row (b.matches_.lookup (matchRow m.event))) })
  | .updateMatchStatus id status, b =>
    (.ok (), { b with
      matches_ := b.matches_.mapVal fun k r =>
        if k = id then { r with status := nextStatus status r.status } else r })
  | .upsertMarketsBulk ms, b =>
    -- a command that touches one row twice fails as a whole
    if (ms.map MarketUpsert.key).Nodup then
      (.ok (ms.map fun m => ⟨m.key, (m.row (b.markets.lookup m.key)).status⟩),
        { b with markets := b.markets.upserts MarketUpsert.key MarketUpsert.row ms })
    else (.error .repeatedRow, b)
  | .upsertOutcomesBulk os, b =>
    if (os.map fun o => (o.market, o.outcome)).Nodup then
      (.ok (), { b with
        outcomes := b.outcomes.upserts (fun o => (o.market, o.outcome)) OutcomeUpsert.row os })
    else (.error .repeatedRow, b)
  | .deactivateOutcomes outcomes ts, b =>
    (.ok (), { b with
      outcomes := b.outcomes.mapVal fun k r =>
        if outcomes.contains k && r.active then r.dropped ts else r })
  | .setMarketsStatus ids status ts, b =>
    (.ok (), b.update (Catalog.Fonbet.SetMarketsStatus ids status ts))
  | .countActiveProviderMarkets, b =>
    (.ok (b.markets.pairs.countP fun kr => kr.2.status = 1 && b.offers kr.1), b)
  | .suspendProviderCatalog, b => (.ok (), b.update (SuspendProviderCatalog b))
  -- what is trimmed had been sent
  | .xadd _ ev, b => (.ok (), { b with said := b.said ++ [ev] })
  | .ctxErr, b => (.ok (), b)

/-- The database and Redis, answering one call at a time. -/
def server : Server Backend IngestErr Call Call.Ret := ⟨Backend.exec⟩

/-! ## Memory -/

/-- No odds when the price has to be said again. -/
structure OutcomeState where
  odds : Option ℚ
  active : Bool
  deriving DecidableEq

/-- What memory keeps of a market: its row, its status, its outcomes. -/
structure MarketState where
  dbid : MarketKey
  status : Int
  outcomes : Assoc OutcomeId OutcomeState

/-- What memory keeps of a match. -/
structure MatchState where
  dbid : MatchId
  live : Bool
  team1 : List Char
  team2 : List Char
  startTime : Int
  markets : Assoc (List Char) MarketState

/-- The outcome in memory that an event came from. -/
structure OutcomeRef where
  event : Int
  key : List Char
  oid : OutcomeId
  deriving DecidableEq

/-- The memory of the process; the last two fields are the cycle's own. -/
structure Ingester where
  matches_ : Assoc Int MatchState
  missing : Int → Nat
  closed : List Int
  marketTypes : Option (Assoc MarketTypeKey Int)
  lastApplied : Nat
  shrinkRejects : Nat
  suspended : Bool
  oddsEvents : List (OddsEvent × Option OutcomeRef)
  failed : Nat

/-- Nothing is known before the state is loaded. -/
def New : Ingester where
  matches_ := ∅
  missing := fun _ => 0
  closed := []
  marketTypes := none
  lastApplied := 0
  shrinkRejects := 0
  suspended := false
  oddsEvents := []
  failed := 0

/-- A procedure of the ingester. -/
abbrev Go := Proc Call Call.Ret IngestErr Ingester

/-- A call that may fail, or may have worked and fail in its answer. -/
abbrev ask (call : Call) : Go call.Ret := Proc.call call

/-- The calls of one loop `for i := 0; i < len(l); i += n`. -/
def cut {α : Type} (n : Nat) : Nat → List α → List (List α)
  | 0, _ => []
  | _ + 1, [] => []
  | fuel + 1, l => l.take n :: cut n fuel (l.drop n)

/-- The list in chunks of `n`. -/
def chunks {α : Type} (n : Nat) (l : List α) : List (List α) := cut n l.length l

namespace Ingester

def put (c : Ingester) (event : Int) (ms : MatchState) : Ingester :=
  { c with matches_ := c.matches_.insert event ms }

def drop (c : Ingester) (event : Int) : Ingester :=
  { c with matches_ := c.matches_.erase event }

/-- `MarketTypes.ID` -/
def typeId (c : Ingester) (key : MarketTypeKey) : Option Int := c.marketTypes.bind (·.lookup key)

/-- The active markets become suspended ones. -/
def suspend (c : Ingester) : Ingester :=
  { c with
    matches_ := c.matches_.mapVal fun _ ms =>
      { ms with
        markets := ms.markets.mapVal fun _ mk => if mk.status = 1 then { mk with status := -1 } else mk } }

end Ingester

/-! ## Market types -/

def loadedTypes : Go (Assoc MarketTypeKey Int) := do
  let c ← Proc.get
  match c.marketTypes with
  | some types => pure types
  | none =>
    let loaded ← ask .loadMarketTypes
    Proc.modify fun c => { c with marketTypes := some loaded }
    pure loaded

/-- `MarketTypes.Merge` -/
def merge (types : Assoc MarketTypeKey Int) (added : List (MarketTypeKey × Int)) :
    Assoc MarketTypeKey Int :=
  added.foldl (fun t kv => t.insert kv.1 kv.2) types

def ensureMarketTypes (keys : List MarketTypeKey) : Go Unit := do
  let types ← loadedTypes
  let missing := (keys.filter fun k => (types.lookup k).isNone).dedup
  if missing = [] then pure ()
  else
    let added ← ask (.ensureMarketTypes missing)
    Proc.modify fun c => { c with marketTypes := c.marketTypes.map fun t => merge t added }

/-- The markets of a match under the keys they were built with, each with our id for its
type; one without an id is dropped. -/
def quotesOf (typeId : MarketTypeKey → Option Int) (m : Match) : Assoc (List Char) Market :=
  .ofPairs (m.markets.filterMap fun mk =>
    (typeId (KeyFor mk)).map fun id => (mk.key, { mk with pmid := id }))

/-- The keys of the map stay the composed ones. -/
def retagMarketTypes (snap : Snapshot) : Go (List (Match × Assoc (List Char) Market)) := do
  ensureMarketTypes (snap.matches_.flatMap fun m => m.markets.map KeyFor)
  let c ← Proc.get
  pure (snap.matches_.map fun m => (m, quotesOf c.typeId m))

/-! ## One match -/

/-- The match row when the match is new or its header changed. -/
def ensureMatch (m : Match) : Go MatchState := do
  let c ← Proc.get
  let known := c.matches_.lookup m.eventId
  match known.filter fun ms => ms.team1 = m.team1 && ms.team2 = m.team2 && ms.startTime = m.startTime with
  | some ms => pure ms
  | none =>
    ask (.ensureCatalog m.eventId)
    let id ← ask (.upsertMatch
      { event := m.eventId, homeTeam := m.team1, awayTeam := m.team2,
        scheduledAt := if 0 < m.startTime then some m.startTime else none,
        status := if m.live then .live else .notStarted })
    let ms : MatchState :=
      { known.getD ⟨id, m.live, m.team1, m.team2, m.startTime, ∅⟩ with
        dbid := id, team1 := m.team1, team2 := m.team2, startTime := m.startTime }
    Proc.modify (·.put m.eventId ms)
    pure ms

/-- No statement is made for no markets. -/
def Store.SetMarketsStatus (ids : List MarketKey) (status ts : Int) : Go Unit :=
  if ids = [] then pure () else ask (.setMarketsStatus ids status ts)

/-- The rows of the markets that memory has. -/
def MatchState.ids (ms : MatchState) : List MarketKey := ms.markets.pairs.map fun p => p.2.dbid

/-- A finished match: its row, its markets, and out of memory. -/
def closeMatch (event : Int) (ms : MatchState) (nowMs : Int) : Go Unit := do
  ask (.updateMatchStatus ms.dbid .closed)
  Store.SetMarketsStatus ms.ids 0 nowMs
  Proc.modify (·.drop event)

/-- The row goes live once. -/
def goLive (m : Match) (ms : MatchState) : Go MatchState :=
  if m.live && !ms.live then do
    ask (.updateMatchStatus ms.dbid .live)
    pure { ms with live := true }
  else pure ms

section

variable (quotes : Assoc (List Char) Market) (ms : MatchState) (nowMs : Int)

/-- The row of a quoted market. -/
def MatchState.rowOf (mk : Market) : MarketKey := ⟨ms.dbid, mk.pmid, mk.canonical⟩

/-- New or re-statused markets. -/
def marketUpserts : List MarketUpsert :=
  quotes.pairs.filterMap fun q =>
    if (ms.markets.lookup q.1).any fun ps => ps.status = q.2.status then none
    else some ⟨ms.rowOf q.2, q.2.status, nowMs⟩

/-- The state of a market after its upsert. -/
def upserted (r : MarketUpsertResult) : Option MarketState → MarketState
  | none => ⟨r.id, r.newStatus, ∅⟩
  | some ps => { ps with status := r.newStatus }

/-- Memory after the upsert: the markets whose row came back. -/
def commitMarkets (results : List MarketUpsertResult) : MatchState :=
  { ms with
    markets := quotes.pairs.foldl (fun mks q =>
      match results.find? fun r => r.id = ms.rowOf q.2 with
      | none => mks
      | some r => mks.insert q.1 (upserted r (mks.lookup q.1))) ms.markets }

/-- No statement is made when no market is new or re-statused. -/
def upsertMarkets : Go MatchState :=
  if marketUpserts quotes ms nowMs = [] then pure ms
  else do
    let results ← ask (.upsertMarketsBulk (marketUpserts quotes ms nowMs))
    pure (commitMarkets quotes ms results)

end

/-! ## Outcomes -/

def Outcome.oid (o : Outcome) : OutcomeId := String.ofList o.id

def Outcome.state (o : Outcome) : OutcomeState := ⟨some o.odds, o.active⟩

/-- The outcomes of a market by their ids. -/
def Market.offer (mk : Market) : Assoc OutcomeId Outcome :=
  .ofPairs (mk.outcomes.map fun o => (o.oid, o))

section

variable (event : Int) (key : List Char) (mk : Market) (ps : MarketState) (nowMs : Int)

/-- The outcomes with another price or another switch than memory has. -/
def changedOutcomes : List (OutcomeId × Outcome) :=
  mk.offer.pairs.filter fun p => ps.outcomes.lookup p.1 ≠ some p.2.state

/-- The outcomes that are no longer on offer. -/
def vanishedOutcomes : List (OutcomeId × OutcomeState) :=
  ps.outcomes.pairs.filter fun p => (mk.offer.lookup p.1).isNone

/-- Their rows. -/
def outcomeUpserts : List OutcomeUpsert :=
  (changedOutcomes mk ps).map fun p =>
    { market := ps.dbid, outcome := p.1, name := String.ofList p.2.name, rawOdds := some p.2.odds,
      probability := none, active := p.2.active, lastOddinTs := nowMs }

/-- The rows to switch off: those that were still on. -/
def droppedOutcomes : List (MarketKey × OutcomeId) :=
  ((vanishedOutcomes mk ps).filter fun p => p.2.active).map fun p => (ps.dbid, p.1)

/-- A price that changed, or the last price of an outcome that went; without a last
price there is nothing to say. -/
def marketEvents : List (OddsEvent × Option OutcomeRef) :=
  ((changedOutcomes mk ps).map fun p =>
    (⟨ps.dbid, p.1, p.2.odds, p.2.active, nowMs⟩, some ⟨event, key, p.1⟩)) ++
  ((vanishedOutcomes mk ps).filter fun p => p.2.active).filterMap fun p =>
    p.2.odds.map fun odds => (⟨ps.dbid, p.1, odds, false, nowMs⟩, none)

/-- Memory after the writes. -/
def commitOutcomes : Assoc OutcomeId OutcomeState :=
  ((changedOutcomes mk ps).foldl (fun t p => t.insert p.1 p.2.state) ps.outcomes).filter fun oid _ =>
    (mk.offer.lookup oid).isSome

end

section

variable (event : Int) (quotes : Assoc (List Char) Market) (ms : MatchState)

/-- The quoted markets with their states; none when one has no state. -/
def paired : Option (List ((List Char × Market) × MarketState)) :=
  quotes.pairs.mapM fun q => (ms.markets.lookup q.1).map fun ps => (q, ps)

/-- The markets that are no longer quoted. -/
def goneMarkets : List MarketKey :=
  (ms.markets.pairs.filter fun p => (quotes.lookup p.1).isNone).map fun p => p.2.dbid

/-- Memory after a match: the quoted markets only. -/
def commitMatch : MatchState :=
  { ms with
    markets := (ms.markets.filter fun key _ => (quotes.lookup key).isSome).mapVal fun key ps =>
      match quotes.lookup key with
      | none => ps
      | some mk => { ps with outcomes := commitOutcomes mk ps } }

end

def chunkOutcomes : Nat := 4000
def chunkStream : Nat := 1000

/-- Suspended while the whole event is blocked, else off the line. -/
def goneStatus (m : Match) : Int := if m.blocked || m.notActive then -1 else 0

def DeactivateOutcomes (outcomes : List (MarketKey × OutcomeId)) (ts : Int) : Go Unit :=
  if outcomes = [] then pure () else ask (.deactivateOutcomes outcomes ts)

/-- The writes for the outcomes and for the markets that went, then memory. -/
def writeOutcomes (quotes : Assoc (List Char) Market) (m : Match) (ms : MatchState) (nowMs : Int)
    (diffs : List ((List Char × Market) × MarketState)) : Go Unit := do
  (chunks chunkOutcomes (diffs.flatMap fun d => outcomeUpserts d.1.2 d.2 nowMs)).forM fun rows =>
    ask (.upsertOutcomesBulk rows)
  DeactivateOutcomes (diffs.flatMap fun d => droppedOutcomes d.1.2 d.2) nowMs
  Store.SetMarketsStatus (goneMarkets quotes ms) (goneStatus m) nowMs
  Proc.modify fun c =>
    { c.put m.eventId (commitMatch quotes ms) with
      oddsEvents := c.oddsEvents ++
        diffs.flatMap fun d => marketEvents m.eventId d.1.1 d.1.2 d.2 nowMs }

/-- One match: its row, its markets, its outcomes, then memory. -/
def applyMatch (quotes : Assoc (List Char) Market) (m : Match) (nowMs : Int) : Go Unit := do
  let ms ← ensureMatch m
  if m.finished then
    closeMatch m.eventId ms nowMs
    Proc.modify fun c => { c with closed := m.eventId :: c.closed }
  else
    let ms ← goLive m ms
    let ms ← upsertMarkets quotes ms nowMs
    match paired quotes ms with
    | none => Proc.throw .noDbId
    | some diffs => writeOutcomes quotes m ms nowMs diffs

/-! ## One cycle -/

/-- A match is closed in the third cycle that misses it. -/
def MissingCyclesToClose : Nat := 3
def shrinkGuardMinMatches : Nat := 200
def shrinkGuardMaxRejects : Nat := 5

/-- Fewer than half of the matches of the last line. -/
def Ingester.shrunk (c : Ingester) (total : Nat) : Bool :=
  shrinkGuardMinMatches ≤ c.lastApplied && 2 * total < c.lastApplied

/-- A line that shrank is refused, until it has been refused too often. -/
def shrinkGuard (total : Nat) : Go Unit := do
  let c ← Proc.get
  if c.shrunk total then
    Proc.modify fun c => { c with shrinkRejects := c.shrinkRejects + 1 }
    if c.shrinkRejects + 1 < shrinkGuardMaxRejects then Proc.throw .snapshotShrunk
    else Proc.modify fun c => { c with shrinkRejects := 0, lastApplied := total }
  else Proc.modify fun c => { c with shrinkRejects := 0, lastApplied := total }

def Ingester.setMissing (c : Ingester) (event : Int) (n : Nat) : Ingester :=
  { c with missing := fun e => if e = event then n else c.missing e }

/-- A match of the line; after an error its state is dropped for the next cycle, unless
the feed is being stopped. -/
def applyListed (nowMs : Int) (line : Match × Assoc (List Char) Market) : Go Unit := do
  Proc.modify (·.setMissing line.1.eventId 0)
  let c ← Proc.get
  if line.1.eventId ∈ c.closed then pure ()
  else
    (applyMatch line.2 line.1 nowMs).orElse do
      Proc.modify fun c => { c.drop line.1.eventId with failed := c.failed + 1 }
      (ask .ctxErr).orElse (Proc.throw .cancelled)

def Snapshot.seen (snap : Snapshot) (event : Int) : Bool :=
  snap.matches_.any fun m => m.eventId = event

/-- The match went, once it has been away long enough. -/
def withdraw (nowMs : Int) (event : Int) (ms : MatchState) : Go Unit :=
  if ms.live then closeMatch event ms nowMs
  else do
    Store.SetMarketsStatus ms.ids 0 nowMs
    Proc.modify (·.drop event)

/-- A match off the line is withdrawn in the third cycle that misses it; a capped one waits. -/
def vanish (snap : Snapshot) (nowMs : Int) (known : Int × MatchState) : Go Unit :=
  if snap.seen known.1 then pure ()
  else if known.1 ∈ snap.capped then Proc.modify (·.setMissing known.1 0)
  else do
    Proc.modify fun c => c.setMissing known.1 (c.missing known.1 + 1)
    let c ← Proc.get
    if c.missing known.1 < MissingCyclesToClose then pure ()
    else
      Proc.modify (·.setMissing known.1 0)
      (withdraw nowMs known.1 known.2).logged

/-! ## The stream -/

/-- One command of the pipeline; the others are sent anyway. -/
def sent (ev : OddsEvent) : Go Bool :=
  (do ask (.xadd MaxLenApprox ev); pure true : Go Bool).orElse (pure false)

/-- The commands of a pipeline, and whether all of them went through. -/
def PublishOddsBatch : List OddsEvent → Go Bool
  | [] => pure true
  | ev :: evs => do
    let ok ← sent ev
    let rest ← PublishOddsBatch evs
    pure (ok && rest)

/-- The outcome in memory forgets its price. -/
def Ingester.forget (c : Ingester) (ref : OutcomeRef) : Ingester :=
  match c.matches_.lookup ref.event with
  | none => c
  | some ms =>
    match ms.markets.lookup ref.key with
    | none => c
    | some ps =>
      match ps.outcomes.lookup ref.oid with
      | none => c
      | some st =>
        c.put ref.event { ms with
          markets := ms.markets.insert ref.key { ps with
            outcomes := ps.outcomes.insert ref.oid { st with odds := none } } }

/-- After a chunk that failed, nothing more is sent and the rest is said again. -/
def flush : List (List (OddsEvent × Option OutcomeRef)) → Go Unit
  | [] => pure ()
  | chunk :: rest => do
    if ← PublishOddsBatch (chunk.map Prod.fst) then flush rest
    else
      Proc.modify fun c => ((chunk :: rest).flatten.filterMap Prod.snd).foldl Ingester.forget c

/-- One cycle: the guard, the types, every match, what vanished, then the stream. -/
def Apply (snap : Snapshot) (nowMs : Int) : Go Nat := do
  shrinkGuard (max snap.totalMatches snap.matches_.length)
  let line ← retagMarketTypes snap
  Proc.modify fun c => { c with oddsEvents := [], failed := 0 }
  line.forM (applyListed nowMs)
  let c ← Proc.get
  c.matches_.pairs.forM (vanish snap nowMs)
  Proc.modify fun c => { c with closed := c.closed.filter snap.seen }
  let c ← Proc.get
  flush (chunks chunkStream c.oddsEvents)
  Proc.modify fun c => { c with suspended := false }
  let c ← Proc.get
  pure c.failed

/-! ## Beside the cycles -/

/-- Every market that memory has is switched off. -/
def SuspendAll : Go Unit := do
  ask .suspendProviderCatalog
  Proc.modify fun c => { c.suspend with suspended := true }

def externalSuspendRatio : Nat := 2

/-- The markets that memory has active. -/
def Ingester.expected (c : Ingester) : Nat :=
  (c.matches_.pairs.map fun p => p.2.markets.pairs.countP fun q => q.2.status = 1).sum

/-- Another writer suspended our markets: memory follows, and the next cycle asserts
them again. -/
def ReconcileExternalSuspend : Go Bool := do
  let c ← Proc.get
  if c.suspended ∨ c.expected = 0 then pure false
  else
    let actual ← ask .countActiveProviderMarkets
    if c.expected / externalSuspendRatio ≤ actual then pure false
    else
      Proc.modify Ingester.suspend
      pure true

/-- The key of a stored market, from the id it has in the database. -/
def storedKey (k : MarketKey) : List Char := itoa k.providerMarketId ++ '|' :: k.specifiersHash

/-- A price that odds-publisher never saw is forgotten. -/
def StoredOutcome.state (o : StoredOutcome) : OutcomeState :=
  ⟨if o.unpublished then none else o.rawOdds, o.active⟩

def StoredMarket.state (mk : StoredMarket) : MarketState where
  dbid := mk.id
  status := mk.status
  outcomes := .ofPairs (mk.outcomes.map fun o => (o.outcomeId, o.state))

def StoredMatch.state (sm : StoredMatch) : MatchState where
  dbid := sm.id
  live := sm.row.status = .live
  team1 := sm.row.homeTeam
  team2 := sm.row.awayTeam
  startTime := sm.row.scheduledAt.getD 0
  markets := .ofPairs (sm.markets.map fun mk => (storedKey mk.id, mk.state))

/-- The rows of the provider's open matches. -/
def LoadProviderState : Go (List StoredMatch) := do
  let matches_ ← ask .loadMatches
  if matches_.isEmpty then pure []
  else
    let markets ← ask .loadMarkets
    pure (matches_.map fun r => ⟨r.1, r.2, markets.filter fun mk => mk.id.matchId = r.1⟩)

/-- Memory is what the database says. -/
def Bootstrap : Go Unit := do
  let stored ← LoadProviderState
  Proc.modify fun c =>
    { c with matches_ := stored.foldl (fun t sm => t.insert sm.row.event sm.state) c.matches_ }

/-- The types of the static descriptions, in the feed's language and in the others; an
error of the others is logged. -/
def WriteStaticDescriptions (base : List MarketTypeKey) (others : List (List MarketTypeKey)) : Go Unit := do
  ensureMarketTypes base
  others.forM fun keys => (ensureMarketTypes keys).logged

/-- What `runFeed` does before it polls. -/
def start (base : List MarketTypeKey) (others : List (List MarketTypeKey)) : Go Unit := do
  WriteStaticDescriptions base others
  Bootstrap

/-! ## The feed -/

/-- What a procedure of the feed comes to. -/
inductive Report
  | started
  | applied (failed : Nat)
  | suspended
  | reconciled (flipped : Bool)
  | described

/-- The procedures that exclude each other, on the poll loop and by the mutex: a cycle on
a snapshot, the watchdog, the reconcile tick, the refresh of the descriptions. -/
inductive Procedure (ok : Snapshot → Prop) : Go Report → Prop
  | cycle {snap : Snapshot} (h : ok snap) (nowMs : Int) :
    Procedure ok (do let failed ← Apply snap nowMs; pure (.applied failed))
  | watchdog : Procedure ok (do SuspendAll; pure .suspended)
  | reconcile : Procedure ok (do let flipped ← ReconcileExternalSuspend; pure (.reconciled flipped))
  | refresh (base : List MarketTypeKey) :
    Procedure ok (do WriteStaticDescriptions base []; pure .described)

/-- One `runFeed` after the other, each with an ingester of its own. -/
def runFeed (base : List MarketTypeKey) (others : List (List MarketTypeKey)) (ok : Snapshot → Prop)
    (admits : Except IngestErr Report → Prop) : Process Call Call.Ret IngestErr Ingester Report where
  fresh := New
  boot := do start base others; pure .started
  jobs := Procedure ok
  admits := admits

end Oddzilla.Fonbet
