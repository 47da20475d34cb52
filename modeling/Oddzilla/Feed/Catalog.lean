import Oddzilla.Lib.Like
import Oddzilla.Feed.Messages

/-!
# The feeds' statements on the catalogue

The `markets` table is a map from the natural key to the row; the id column stands
for the key.  A statement is what it makes of one row: an `UPDATE` changes the rows
its `WHERE` accepts, an upsert also makes the missing ones.  The guard on settled and
cancelled rows is written out in each of them, as the source has it.
-/

namespace Oddzilla.Catalog

abbrev MatchId := Nat

structure MarketKey where
  matchId : MatchId
  providerMarketId : Int
  specifiersHash : List Char
  deriving DecidableEq, Repr

structure MarketRow where
  status : Int
  lastOddinTs : Int
  deriving DecidableEq, Repr

structure MatchRow where
  providerUrn : List Char
  status : String

abbrev Matches := MatchId → Option MatchRow

abbrev Markets := MarketKey → Option MarketRow

/-- What a statement makes of a row of `markets`, by the rows of `matches`. -/
abbrev Statement := Matches → MarketKey → Option MarketRow → Option MarketRow

/-- `status IN (-3, -4)` -/
def isTerminal (status : Int) : Bool := status = -3 || status = -4

/-- `UPDATE markets SET … WHERE …` -/
def updateWhere (where_ : Matches → MarketKey → MarketRow → Bool) (set : MarketRow → MarketRow) :
    Statement :=
  fun ms k row => row.map fun r => if where_ ms k r then set r else r

/-- One row of an upsert. -/
structure MarketUpsert where
  key : MarketKey
  status : Int
  lastOddinTs : Int
  deriving DecidableEq, Repr

/-- `ON CONFLICT … DO UPDATE` -/
def MarketUpsert.onConflict (m : MarketUpsert) (r : MarketRow) : MarketRow where
  status := if isTerminal r.status then r.status else m.status
  lastOddinTs := if isTerminal r.status then r.lastOddinTs else max r.lastOddinTs m.lastOddinTs

def MarketUpsert.row (m : MarketUpsert) : Option MarketRow → MarketRow
  | none => ⟨m.status, m.lastOddinTs⟩
  | some r => m.onConflict r

structure OutcomeRow where
  name : String
  rawOdds : Option ℚ
  publishedOdds : Option ℚ
  probability : Option ℚ
  active : Bool
  lastOddinTs : Int
  deriving DecidableEq

abbrev Outcomes := MarketKey → OutcomeId → Option OutcomeRow

/-- One row of an upsert of outcomes. -/
structure OutcomeUpsert where
  market : MarketKey
  outcome : OutcomeId
  name : String
  rawOdds : Option ℚ
  probability : Option ℚ
  active : Bool
  lastOddinTs : Int
  deriving DecidableEq

/-- The `WHERE` of the `DO UPDATE`: something it would write is new. -/
def OutcomeUpsert.changes (o : OutcomeUpsert) (r : OutcomeRow) : Bool :=
  r.active ≠ o.active || (o.rawOdds.isSome && r.rawOdds ≠ o.rawOdds) ||
    (o.probability.isSome && r.probability ≠ o.probability) || (o.name ≠ "" && r.name ≠ o.name)

def OutcomeUpsert.onConflict (o : OutcomeUpsert) (r : OutcomeRow) : OutcomeRow :=
  if o.changes r then
    { r with
      name := if o.name ≠ "" then o.name else r.name
      rawOdds := o.rawOdds.or r.rawOdds
      probability := o.probability.or r.probability
      active := o.active
      lastOddinTs := max r.lastOddinTs o.lastOddinTs }
  else r

def OutcomeUpsert.row (o : OutcomeUpsert) : Option OutcomeRow → OutcomeRow
  | none => ⟨o.name, o.rawOdds, none, o.probability, o.active, o.lastOddinTs⟩
  | some r => o.onConflict r

/-- The `SET` alone, in the statement for one row. -/
def OutcomeUpsert.set (o : OutcomeUpsert) (r : OutcomeRow) : OutcomeRow :=
  { r with
    name := if o.name ≠ "" then o.name else r.name
    rawOdds := o.rawOdds.or r.rawOdds
    probability := o.probability.or r.probability
    active := o.active
    lastOddinTs := max r.lastOddinTs o.lastOddinTs }

def OutcomeUpsert.rowSet (o : OutcomeUpsert) : Option OutcomeRow → OutcomeRow
  | none => ⟨o.name, o.rawOdds, none, o.probability, o.active, o.lastOddinTs⟩
  | some r => o.set r

/-- An outcome that is no longer on offer. -/
def OutcomeRow.dropped (r : OutcomeRow) (ts : Int) : OutcomeRow :=
  { r with
    active := false, publishedOdds := none, rawOdds := none, probability := none,
    lastOddinTs := max r.lastOddinTs ts }

/-! ## feed-ingester -/

def UpsertMarket (m : MarketUpsert) : Statement :=
  fun _ k row => if k = m.key then some (m.row row) else row

/-- Two inputs with one key make the whole command fail, so a key has one input. -/
def UpsertMarketsBulk (ms : List MarketUpsert) : Statement :=
  fun _ k row =>
    match ms.find? (·.key = k) with
    | none => row
    | some m => some (m.row row)

/-- A batch of statements, one for each row. -/
def UpsertOutcomes (rows : List OutcomeUpsert) (db : Outcomes) : Outcomes :=
  rows.foldl
    (fun db o k id => if o.market = k ∧ o.outcome = id then some (o.rowSet (db k id)) else db k id) db

def UpdateAllMarketsStatusForMatch (matchId : MatchId) (status oddinTs : Int) : Statement :=
  updateWhere (fun _ k r => k.matchId = matchId && !isTerminal r.status && r.status ≠ status)
    fun r => ⟨status, max r.lastOddinTs oddinTs⟩

def SweepHandoverTimeouts (nowMs timeoutMs : Int) : Statement :=
  updateWhere (fun _ _ r => r.status = -2 && r.lastOddinTs < nowMs - timeoutMs) fun r =>
    { r with status := -1 }

def UpsertOutcomesBulk (os : List OutcomeUpsert) (db : Outcomes) : Outcomes := fun k id =>
  match os.find? (fun o => o.market = k && o.outcome = id) with
  | none => db k id
  | some o => some (o.row (db k id))

/-- Drops the active outcomes of the markets in `scope` that `keeps` does not name. -/
def DeactivateMissingOutcomes (scope : List MarketKey) (keeps : List (MarketKey × OutcomeId))
    (oddinTs : Int)
    (db : Outcomes) : Outcomes := fun k id =>
  (db k id).map fun r =>
    if scope.contains k && r.active && !keeps.contains (k, id) then r.dropped oddinTs else r

def OddinMatchURNPrefix : List Char := "od:match:".toList

/-- The first statement of the flush; the other two write `market_outcomes` and
`matches`. -/
def FlushAndSuspendActiveCatalog : Statement :=
  updateWhere
    (fun ms k r =>
      match ms k.matchId with
      | none => false
      | some ma => r.status = 1 && (ma.status = "not_started" || ma.status = "live") &&
          Sql.like (OddinMatchURNPrefix ++ ['%']) ma.providerUrn)
    fun r => { r with status := -1 }

/-! ## fonbet-ingester -/

namespace Fonbet

def UpsertMarketsBulk (ms : List MarketUpsert) : Statement := Catalog.UpsertMarketsBulk ms

def SetMarketsStatus (marketIds : List MarketKey) (status ts : Int) : Statement :=
  updateWhere (fun _ k r => marketIds.contains k && !isTerminal r.status && r.status ≠ status)
    fun r => ⟨status, max r.lastOddinTs ts⟩

end Fonbet

/-! ## settlement and api -/

/-- The settlement service's own write has no guard. -/
def SetMarketStatus (marketId : MarketKey) (status oddinTs : Int) : Statement :=
  updateWhere (fun _ k _ => k = marketId) fun r => ⟨status, max r.lastOddinTs oddinTs⟩

/-- The sweeper's write to a market that it selected before. -/
def sweepUpdate (marketId : MarketKey) : Statement :=
  updateWhere (fun _ k _ => k = marketId) fun r => { r with status := -1 }

/-! ## Rows of outcomes -/

theorem OutcomeUpsert.row_active (o : OutcomeUpsert) (r : Option OutcomeRow) :
    (o.row r).active = o.active := by
  cases r with
  | none => rfl
  | some r =>
    show (o.onConflict r).active = o.active
    unfold onConflict
    split
    · rfl
    · next h =>
      unfold changes at h
      simp only [Bool.or_eq_true, not_or, decide_eq_true_iff, not_not] at h
      exact h.1.1.1

theorem OutcomeUpsert.row_rawOdds {o : OutcomeUpsert} {v : ℚ} (hv : o.rawOdds = some v)
    (r : Option OutcomeRow) : (o.row r).rawOdds = some v := by
  cases r with
  | none => exact hv
  | some r =>
    show (o.onConflict r).rawOdds = some v
    unfold onConflict
    split
    · show o.rawOdds.or r.rawOdds = some v
      rw [hv]
      rfl
    · next h =>
      unfold changes at h
      simp only [hv, Bool.or_eq_true, not_or, Bool.and_eq_true, Option.isSome_some, true_and, decide_eq_true_iff,
        not_not] at h
      exact h.1.1.2

/-! ## The guard -/

/-- A statement that leaves settled and cancelled rows as they are. -/
def Statement.Guarded (w : Statement) : Prop :=
  ∀ ms k r, isTerminal r.status = true → w ms k (some r) = some r

theorem updateWhere_guarded {where_ : Matches → MarketKey → MarketRow → Bool}
    {set : MarketRow → MarketRow}
    (h : ∀ ms k r, where_ ms k r = true → isTerminal r.status = false) : (updateWhere where_ set).Guarded := by
  intro ms k r hr
  have hno : ¬ where_ ms k r = true := by
    intro hw
    rw [h ms k r hw] at hr
    cases hr
  show (some r).map (fun r => if where_ ms k r = true then set r else r) = some r
  rw [Option.map_some, if_neg hno]

theorem onConflict_terminal (m : MarketUpsert) {r : MarketRow} (h : isTerminal r.status = true) :
    m.onConflict r = r := by
  unfold MarketUpsert.onConflict
  rw [if_pos h, if_pos h]

theorem UpsertMarket_guarded (m : MarketUpsert) : (UpsertMarket m).Guarded := by
  intro ms k r hr
  unfold UpsertMarket
  split
  · exact congrArg some (onConflict_terminal m hr)
  · rfl

theorem UpsertMarketsBulk_guarded (ms : List MarketUpsert) : (UpsertMarketsBulk ms).Guarded := by
  intro _ k r hr
  unfold UpsertMarketsBulk
  split
  · rfl
  · next m _ => exact congrArg some (onConflict_terminal m hr)

theorem UpdateAllMarketsStatusForMatch_guarded (matchId : MatchId) (status oddinTs : Int) :
    (UpdateAllMarketsStatusForMatch matchId status oddinTs).Guarded := by
  apply updateWhere_guarded
  intro _ k r hw
  rw [Bool.and_eq_true, Bool.and_eq_true, Bool.not_eq_true'] at hw
  exact hw.1.2

theorem SweepHandoverTimeouts_guarded (nowMs timeoutMs : Int) :
    (SweepHandoverTimeouts nowMs timeoutMs).Guarded := by
  apply updateWhere_guarded
  intro _ _ r hw
  rw [Bool.and_eq_true, decide_eq_true_iff] at hw
  rw [hw.1]
  rfl

theorem FlushAndSuspendActiveCatalog_guarded : FlushAndSuspendActiveCatalog.Guarded := by
  apply updateWhere_guarded
  intro ms k r hw
  split at hw
  · cases hw
  · rw [Bool.and_eq_true, Bool.and_eq_true, decide_eq_true_iff] at hw
    rw [hw.1.1]
    rfl

theorem SetMarketsStatus_guarded (marketIds : List MarketKey) (status ts : Int) :
    (Fonbet.SetMarketsStatus marketIds status ts).Guarded := by
  apply updateWhere_guarded
  intro _ k r hw
  rw [Bool.and_eq_true, Bool.and_eq_true, Bool.not_eq_true'] at hw
  exact hw.1.2

end Oddzilla.Catalog
