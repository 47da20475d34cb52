import Mathlib.Data.NNRat.Defs
import Oddzilla.Odds.Quote
import Oddzilla.Lib.Keyed
import Oddzilla.Lib.Trace

/-!
# The odds publisher

`publisher.go`, `bulk.go` and `consumer.go`.  `Handle` puts the margin on the ticks of a
batch and writes the last one of every outcome; `Run` reads new batches of `odds.raw`,
`claimLoop` takes pending ones again, and each of their calls is one action here.
-/

namespace Oddzilla.Publisher

/-- An entry of the stream; no price for a text that is empty or no number. -/
structure Event where
  id : Nat
  marketId : Nat
  outcomeId : String
  specifiersCanonical : String
  rawOdds : Option ℚ≥0
  probability : Option ℚ
  active : Bool
  oddinTs : Int

structure MarketInfo where
  marketId : Nat
  matchId : Nat
  tournamentId : Nat
  sportId : Nat
  providerMarketId : Nat

/-- The rows of `odds_config`. -/
structure MarginCache where
  global : Nat
  sport : Nat → Option Nat
  tournament : Nat → Option Nat
  marketType : Nat → Option Nat

def CurrentMargin (cache : MarginCache) (info : MarketInfo) : Nat :=
  ((cache.marketType info.providerMarketId).or
    ((cache.tournament info.tournamentId).or (cache.sport info.sportId))).getD cache.global

/-- What the store answers while a batch is prepared: `ResolveMarkets`, and for each event
the margin cache, if there is one. -/
structure Answers where
  infos : Nat → Option MarketInfo
  cache : Event → Option MarginCache
  infos_key : ∀ id info, infos id = some info → info.marketId = id

/-- One known market, without a margin. -/
def Answers.oneMarket : Answers where
  infos id := if id = 1 then some ⟨1, 1, 1, 1, 4⟩ else none
  cache _ := some ⟨0, fun _ => none, fun _ => none, fun _ => none⟩
  infos_key := by
    intro id info h
    simp only [Option.ite_none_right_eq_some, Option.some.injEq] at h
    rw [← h.2, h.1]

def formatPublishedOdds (v : ℚ) : OddsText := renderGo (ladderUnits ⌊v * 10000 + 1 / 10 ^ 6⌋).toNat

def applyMargin (rawOdds : Option ℚ≥0) (marginBp : Nat) : Option OddsText :=
  rawOdds.map fun raw : ℚ≥0 =>
    if marginBp = 0 then formatPublishedOdds raw
    else formatPublishedOdds (raw / ((10000 + marginBp) / 10000))

abbrev OutcomeKey := Nat × String

/-- One outcome tick after the margin has been applied. -/
structure PublishedRow where
  marketId : Nat
  outcomeId : String
  rawOdds : Option ℚ≥0
  publishedOdds : OddsText
  probability : Option ℚ
  sourceTs : Int

/-- What the subscribers of the match see. -/
structure OutboundPayload where
  matchId : Nat
  marketId : Nat
  providerMarketId : Nat
  sportId : Nat
  tournamentId : Nat
  specifiers : String
  outcomeId : String
  publishedOdds : OddsText
  probability : Option ℚ
  active : Bool
  ts : Int

structure Prepared where
  row : PublishedRow
  payload : OutboundPayload

def Event.key (ev : Event) : OutcomeKey := (ev.marketId, ev.outcomeId)

def PublishedRow.key (r : PublishedRow) : OutcomeKey := (r.marketId, r.outcomeId)

/-- The body of the loop over the events; `fail` drops the tick. -/
def prepare (a : Answers) (ev : Event) : Option Prepared :=
  (a.infos ev.marketId).bind fun info =>
    (a.cache ev).bind fun cache =>
      (applyMargin ev.rawOdds (CurrentMargin cache info)).map fun published =>
        { row := ⟨info.marketId, ev.outcomeId, ev.rawOdds, published, ev.probability, ev.oddinTs⟩
          payload := ⟨info.matchId, info.marketId, info.providerMarketId, info.sportId, info.tournamentId,
            ev.specifiersCanonical, ev.outcomeId, published, ev.probability, ev.active, ev.oddinTs⟩ }

/-- The rows at `latest`: the last item of every outcome. -/
def latest : List PublishedRow → List PublishedRow
  | [] => []
  | r :: rs => if rs.any fun r' => r'.key = r.key then latest rs else r :: latest rs

def Answers.rows (a : Answers) (events : List Event) : List PublishedRow :=
  latest ((events.filterMap (prepare a)).map Prepared.row)

/-! ## bulk.go -/

/-- The columns of `market_outcomes` the statement touches, in units of their scale:
`NUMERIC(10, 4)` and `NUMERIC(8, 7)`. -/
structure OutcomeRow where
  publishedOdds : Option Int
  probability : Option Int
  lastOddinTs : Int

abbrev Outcomes := OutcomeKey → Option OutcomeRow

/-- A number in units of a column, a half rounded away from zero. -/
def numeric (scale : Nat) (x : ℚ) : Int :=
  if 0 ≤ x then ⌊x * 10 ^ scale + 1 / 2⌋ else -⌊-x * 10 ^ scale + 1 / 2⌋

theorem numeric_units (scale : Nat) (u : Int) : numeric scale ((u : ℚ) / 10 ^ scale) = u := by
  have hpos : (0 : ℚ) < 10 ^ scale := by positivity
  unfold numeric
  split
  · rw [div_mul_cancel₀ _ hpos.ne', Int.floor_eq_iff]
    constructor <;> linarith
  · rw [neg_mul, div_mul_cancel₀ _ hpos.ne', neg_eq_iff_eq_neg, Int.floor_eq_iff]
    push_cast
    constructor <;> linarith

/-- `published_odds` and `probability` a row asks for. -/
def PublishedRow.units (r : PublishedRow) : Int := numeric 4 r.publishedOdds.value

def PublishedRow.probabilityUnits (r : PublishedRow) : Option Int := r.probability.map (numeric 7)

/-- The WHERE clause: `IS DISTINCT FROM`, on the numbers as they are. -/
def OutcomeRow.differs (o : OutcomeRow) (r : PublishedRow) : Bool :=
  decide (o.publishedOdds.map (fun u : Int => (u : ℚ) / 10 ^ 4) ≠ some r.publishedOdds.value) ||
    r.probability.any fun p => decide (o.probability.map (fun u : Int => (u : ℚ) / 10 ^ 7) ≠ some p)

/-- The SET clause. -/
def OutcomeRow.set (o : OutcomeRow) (r : PublishedRow) : OutcomeRow :=
  { publishedOdds := some r.units
    probability := r.probabilityUnits.or o.probability
    lastOddinTs := max o.lastOddinTs r.sourceTs }

def OutcomeRow.update (o : OutcomeRow) (r : PublishedRow) : OutcomeRow :=
  if o.differs r then o.set r else o

/-- The columns hold what is written. -/
def OutcomeRow.accepts (o : OutcomeRow) (r : PublishedRow) : Bool :=
  !o.differs r || (decide (r.units < 10 ^ 10) && r.probabilityUnits.all fun p => decide (-10 ^ 8 < p ∧ p < 10 ^ 8))

def Outcomes.accepts (db : Outcomes) (rows : List PublishedRow) : Bool :=
  rows.all fun r => (db r.key).all fun o => o.accepts r

def Outcomes.updateAll (db : Outcomes) (rows : List PublishedRow) : Outcomes := fun k =>
  match rows.find? fun r => r.key = k with
  | some r => (db k).map fun o => o.update r
  | none => db k

/-- One statement: all rows or an error. -/
def UpdateOutcomesPublishedBulk (rows : List PublishedRow) (db : Outcomes) : Option Outcomes :=
  if db.accepts rows then some (db.updateAll rows) else none

/-- `Handle` when the store answers and writes: the rows, and one payload for each event. -/
def Handle (a : Answers) (db : Outcomes) (events : List Event) :
    Option (Outcomes × List OutboundPayload) :=
  (UpdateOutcomesPublishedBulk (a.rows events) db).map fun db' =>
    (db', (events.filterMap (prepare a)).map Prepared.payload)

/-! ## consumer.go -/

inductive Worker
  | run | claimLoop
  deriving DecidableEq

/-- Where a loop stands between two calls: it has a batch, its rows, the rows it still
tries one by one, or it is about to acknowledge. -/
inductive Stage
  | idle
  | handling (batch : List Event)
  | writing (batch : List Event) (rows : List PublishedRow)
  | retrying (batch : List Event) (rows : List PublishedRow)
  | acking (batch : List Event)

/-- `writes` is no state of the program: the rows of every statement that went through. -/
structure State where
  unread : List Event
  pending : List Event
  stage : Worker → Stage
  db : Outcomes
  writes : List PublishedRow

/-- The calls of the two loops.  Every one that can fail has a second action for that. -/
inductive Act
  | XReadGroup (count : Nat)
  | XAutoClaim (ids : List Nat)
  | resolve (w : Worker) (a : Answers)
  | resolveFails (w : Worker)
  | write (w : Worker)
  | writeFails (w : Worker)
  | writeRow (w : Worker)
  | writeRowFails (w : Worker)
  | XAck (w : Worker)
  | XAckFails (w : Worker)

def State.goto (s : State) (w : Worker) (stage : Stage) : State :=
  { s with stage := Function.update s.stage w stage }

def State.wrote (s : State) (rows : List PublishedRow) : State :=
  { s with db := s.db.updateAll rows, writes := s.writes ++ rows }

/-- After a row the loop goes on with the rest, and acknowledges when there is none. -/
def State.retry (s : State) (w : Worker) (batch : List Event) (rows : List PublishedRow) : State :=
  s.goto w (if rows.isEmpty then .acking batch else .retrying batch rows)

def State.step (s : State) : Act → Option State
  | .XReadGroup count =>
    match s.stage .run with
    | .idle => some ({ s with unread := s.unread.drop count
                              pending := s.pending ++ s.unread.take count }.goto .run (.handling (s.unread.take count)))
    | _ => none
  | .XAutoClaim ids =>
    match s.stage .claimLoop with
    | .idle => some (s.goto .claimLoop (.handling (s.pending.filter fun ev => ids.contains ev.id)))
    | _ => none
  | .resolve w a =>
    match s.stage w with
    | .handling batch =>
      some (s.goto w (if (a.rows batch).isEmpty then .acking batch else .writing batch (a.rows batch)))
    | _ => none
  | .resolveFails w =>
    match s.stage w with
    | .handling _ => some (s.goto w .idle)
    | _ => none
  | .write w =>
    match s.stage w with
    | .writing batch rows =>
      some (if s.db.accepts rows then (s.wrote rows).goto w (.acking batch) else s.goto w (.retrying batch rows))
    | _ => none
  | .writeFails w =>
    match s.stage w with
    | .writing batch rows => some (s.goto w (.retrying batch rows))
    | _ => none
  | .writeRow w =>
    match s.stage w with
    | .retrying batch (r :: rows) =>
      some ((if s.db.accepts [r] then s.wrote [r] else s).retry w batch rows)
    | _ => none
  | .writeRowFails w =>
    match s.stage w with
    | .retrying batch (_ :: rows) => some (s.retry w batch rows)
    | _ => none
  | .XAck w =>
    match s.stage w with
    | .acking batch =>
      some ({ s with pending := s.pending.filter fun ev => !(batch.map Event.id).contains ev.id }.goto w .idle)
    | _ => none
  | .XAckFails w =>
    match s.stage w with
    | .acking _ => some (s.goto w .idle)
    | _ => none

/-- The rows an action writes. -/
def State.applied (s : State) : Act → List PublishedRow
  | .write w =>
    match s.stage w with
    | .writing _ rows => if s.db.accepts rows then rows else []
    | _ => []
  | .writeRow w =>
    match s.stage w with
    | .retrying _ (r :: _) => if s.db.accepts [r] then [r] else []
    | _ => []
  | _ => []

def State.published (s : State) (k : OutcomeKey) : Option Int :=
  (s.db k).bind OutcomeRow.publishedOdds

/-- Nothing read yet. -/
def State.start (stream : List Event) (db : Outcomes) : State :=
  ⟨stream, [], fun _ => .idle, db, []⟩

/-! ## What an action writes -/

@[simp] theorem State.goto_db (s : State) (w : Worker) (stage : Stage) :
    (s.goto w stage).db = s.db := rfl

@[simp] theorem State.goto_writes (s : State) (w : Worker) (stage : Stage) :
    (s.goto w stage).writes = s.writes := rfl

@[simp] theorem Outcomes.updateAll_nil (db : Outcomes) : db.updateAll [] = db := rfl

@[simp] theorem State.wrote_nil (s : State) : s.wrote [] = s := by
  unfold State.wrote
  rw [Outcomes.updateAll_nil, List.append_nil]

/-- An action writes what it applies and nothing else. -/
theorem step_wrote {s s' : State} {e : Act} (h : s.step e = some s') :
    s'.db = (s.wrote (s.applied e)).db ∧ s'.writes = (s.wrote (s.applied e)).writes := by
  cases e with
  | write w =>
    simp only [State.step] at h
    split at h
    · next batch rows hstage =>
      cases h
      simp only [State.applied, hstage]
      by_cases ha : s.db.accepts rows
      · simp [ha]
      · simp [ha]
    · cases h
  | writeRow w =>
    simp only [State.step] at h
    split at h
    · next batch r rows hstage =>
      cases h
      simp only [State.applied, hstage]
      by_cases ha : s.db.accepts [r]
      · simp [ha, State.retry]
      · simp [ha, State.retry]
    · cases h
  | _ =>
    simp only [State.step] at h
    split at h
    · cases h
      simp [State.applied, State.retry]
    · cases h

theorem updateAll_of_not_mem {db : Outcomes} {rows : List PublishedRow} {k : OutcomeKey}
    (h : ∀ r ∈ rows, r.key ≠ k) : db.updateAll rows k = db k := by
  unfold Outcomes.updateAll
  rw [List.find?_eq_none.mpr fun r hr => by simpa using h r hr]

theorem updateAll_of_mem {db : Outcomes} {rows : List PublishedRow} {r : PublishedRow}
    (hdistinct : (rows.map PublishedRow.key).Nodup) (h : r ∈ rows) :
    db.updateAll rows r.key = (db r.key).map fun o => o.update r := by
  unfold Outcomes.updateAll
  have hfind : rows.find? (fun r' => decide (r'.key = r.key)) = some r :=
    Keyed.find_of_mem hdistinct h
  rw [hfind]

/-- A tick that is stored leaves the price of its row. -/
theorem update_publishedOdds (o : OutcomeRow) (r : PublishedRow) :
    (o.update r).publishedOdds = some r.units := by
  unfold OutcomeRow.update
  by_cases h : o.differs r
  · rw [if_pos h]
    rfl
  · rw [if_neg h]
    unfold OutcomeRow.differs at h
    simp only [Bool.or_eq_true, decide_eq_true_iff, not_or, not_not] at h
    obtain ⟨u, hu, hvalue⟩ := Option.map_eq_some_iff.mp h.1
    rw [hu]
    refine congrArg some ?_
    unfold PublishedRow.units
    rw [← hvalue, numeric_units]

/-- A tick without a probability leaves the one that is stored. -/
theorem update_probability (o : OutcomeRow) (r : PublishedRow) :
    (o.update r).probability = r.probabilityUnits.or o.probability := by
  unfold OutcomeRow.update
  by_cases h : o.differs r
  · rw [if_pos h]
    rfl
  · rw [if_neg h]
    unfold OutcomeRow.differs at h
    simp only [Bool.or_eq_true, decide_eq_true_iff, not_or, not_not] at h
    unfold PublishedRow.probabilityUnits
    cases hp : r.probability with
    | none => rfl
    | some p =>
      have hstored : o.probability.map (fun u : Int => (u : ℚ) / 10 ^ 7) = some p := by
        have hsame := h.2
        rw [hp] at hsame
        simpa using hsame
      obtain ⟨u, hu, rfl⟩ := Option.map_eq_some_iff.mp hstored
      rw [hu, Option.map_some, numeric_units]
      rfl

/-- One row for each outcome. -/
theorem latest_sublist (rows : List PublishedRow) : (latest rows).Sublist rows := by
  induction rows with
  | nil => exact List.Sublist.slnil
  | cons r rows ih =>
    unfold latest
    split
    · exact ih.cons r
    · exact ih.cons_cons r

theorem latest_distinct (rows : List PublishedRow) :
    ((latest rows).map PublishedRow.key).Nodup := by
  induction rows with
  | nil => exact List.nodup_nil
  | cons r rows ih =>
    unfold latest
    split
    · exact ih
    · next h =>
      rw [List.map_cons, List.nodup_cons]
      refine ⟨fun hmem => h ?_, ih⟩
      obtain ⟨r', hr', hkey⟩ := List.mem_map.mp hmem
      rw [List.any_eq_true]
      exact ⟨r', (latest_sublist rows).mem hr', by simpa using hkey⟩

/-! ## Where the rows come from -/

def Stage.batch : Stage → List Event
  | .idle => []
  | .handling batch => batch
  | .writing batch _ => batch
  | .retrying batch _ => batch
  | .acking batch => batch

def Stage.rows : Stage → List PublishedRow
  | .writing _ rows => rows
  | .retrying _ rows => rows
  | _ => []

/-- The events of a stage have `E`, its rows `R`, and no outcome has two of them. -/
structure Stage.All (E : Event → Prop) (R : PublishedRow → Prop) (stage : Stage) : Prop where
  batch : ∀ ev ∈ stage.batch, E ev
  rows : ∀ r ∈ stage.rows, R r
  distinct : (stage.rows.map PublishedRow.key).Nodup

structure State.All (E : Event → Prop) (R : PublishedRow → Prop) (s : State) : Prop where
  unread : ∀ ev ∈ s.unread, E ev
  pending : ∀ ev ∈ s.pending, E ev
  stage : ∀ w, (s.stage w).All E R
  writes : ∀ r ∈ s.writes, R r

section

variable {E : Event → Prop} {R : PublishedRow → Prop} {s s' : State} {e : Act}

theorem Stage.All.of_no_rows {stage : Stage} (h : ∀ ev ∈ stage.batch, E ev)
    (hrows : stage.rows = []) :
    stage.All E R :=
  ⟨h, by simp [hrows], by simp [hrows]⟩

theorem Stage.All.idle : Stage.idle.All E R := .of_no_rows (fun ev hev => by cases hev) rfl

theorem State.All.goto (h : s.All E R) {w : Worker} {stage : Stage} (hstage : stage.All E R) :
    (s.goto w stage).All E R := by
  refine ⟨h.unread, h.pending, fun w' => ?_, h.writes⟩
  show (Function.update s.stage w stage w').All E R
  by_cases hw : w' = w
  · rw [hw, Function.update_self]
    exact hstage
  · rw [Function.update_of_ne hw]
    exact h.stage w'

theorem State.All.wrote (h : s.All E R) {rows : List PublishedRow} (hrows : ∀ r ∈ rows, R r) :
    (s.wrote rows).All E R := by
  refine ⟨h.unread, h.pending, h.stage, fun r hr => ?_⟩
  rcases List.mem_append.mp hr with hr | hr
  · exact h.writes r hr
  · exact hrows r hr

theorem State.All.retry (h : s.All E R) {w : Worker} {batch : List Event} {rows : List PublishedRow}
    (hstage : (Stage.retrying batch rows).All E R) : (s.retry w batch rows).All E R := by
  unfold State.retry
  split
  · exact h.goto (.of_no_rows hstage.batch rfl)
  · exact h.goto hstage

theorem Stage.All.tail {batch : List Event} {r : PublishedRow} {rows : List PublishedRow}
    (h : (Stage.retrying batch (r :: rows)).All E R) : (Stage.retrying batch rows).All E R :=
  ⟨h.batch, fun r' hr' => h.rows r' (List.mem_cons_of_mem _ hr'), (List.nodup_cons.mp h.distinct).2⟩

theorem rows_all {a : Answers} {batch : List Event} (hbatch : ∀ ev ∈ batch, E ev)
    (hprepare : ∀ ev p, E ev → prepare a ev = some p → R p.row) : (Stage.writing batch (a.rows batch)).All E R := by
  refine ⟨hbatch, fun r hr => ?_, latest_distinct _⟩
  obtain ⟨p, hp, rfl⟩ := List.mem_map.mp ((latest_sublist _).mem hr)
  obtain ⟨ev, hev, hprep⟩ := List.mem_filterMap.mp hp
  exact hprepare ev p (hbatch ev hev) hprep

/-- Batches hold what was read, and rows what was prepared. -/
theorem step_all (h : s.All E R)
    (hprepare : ∀ w a, e = .resolve w a → ∀ ev p, E ev → prepare a ev = some p → R p.row)
    (hstep : s.step e = some s') : s'.All E R := by
  cases e with
  | XReadGroup count =>
    simp only [State.step] at hstep
    split at hstep
    · cases hstep
      have hread : ∀ ev ∈ s.unread.take count, E ev :=
        fun ev hev => h.unread ev (List.mem_of_mem_take hev)
      have hbatch : (Stage.handling (s.unread.take count)).All E R := .of_no_rows hread rfl
      -- the batch moves from the unread to the pending entries
      have hmoved : State.All E R { s with unread := s.unread.drop count
                                           pending := s.pending ++ s.unread.take count } := by
        refine ⟨fun ev hev => h.unread ev (List.mem_of_mem_drop hev), fun ev hev => ?_, h.stage,
          h.writes⟩
        rcases List.mem_append.mp hev with hev | hev
        · exact h.pending ev hev
        · exact hread ev hev
      exact hmoved.goto hbatch
    · cases hstep
  | XAutoClaim ids =>
    simp only [State.step] at hstep
    split at hstep
    · cases hstep
      exact h.goto (.of_no_rows (fun ev hev => h.pending ev (List.mem_filter.mp hev).1) rfl)
    · cases hstep
  | resolve w a =>
    simp only [State.step] at hstep
    have hw := h.stage w
    split at hstep
    · next batch hstage =>
      rw [hstage] at hw
      cases hstep
      -- no row is written without the condition, so none that is resolved lacks it
      have hrows := rows_all hw.batch (hprepare w a rfl)
      split
      · exact h.goto (.of_no_rows hw.batch rfl)
      · exact h.goto hrows
    · cases hstep
  | write w =>
    simp only [State.step] at hstep
    have hw := h.stage w
    split at hstep
    · next batch rows hstage =>
      rw [hstage] at hw
      cases hstep
      split
      · exact (h.wrote hw.rows).goto (.of_no_rows hw.batch rfl)
      · exact h.goto ⟨hw.batch, hw.rows, hw.distinct⟩
    · cases hstep
  | writeFails w =>
    simp only [State.step] at hstep
    have hw := h.stage w
    split at hstep
    · next batch rows hstage =>
      rw [hstage] at hw
      cases hstep
      exact h.goto ⟨hw.batch, hw.rows, hw.distinct⟩
    · cases hstep
  | writeRow w =>
    simp only [State.step] at hstep
    have hw := h.stage w
    split at hstep
    · next batch r rows hstage =>
      rw [hstage] at hw
      cases hstep
      split
      · exact (h.wrote fun r' hr' => hw.rows r' (List.mem_singleton.mp hr' ▸ List.mem_cons_self ..)).retry hw.tail
      · exact h.retry hw.tail
    · cases hstep
  | writeRowFails w =>
    simp only [State.step] at hstep
    have hw := h.stage w
    split at hstep
    · next batch r rows hstage =>
      rw [hstage] at hw
      cases hstep
      exact h.retry hw.tail
    · cases hstep
  | XAck w =>
    simp only [State.step] at hstep
    split at hstep
    · next batch _ =>
      cases hstep
      have hacked : State.All E R
          { s with pending := s.pending.filter fun ev => !(batch.map Event.id).contains ev.id } :=
        ⟨h.unread, fun ev hev => h.pending ev (List.mem_filter.mp hev).1, h.stage, h.writes⟩
      exact hacked.goto .idle
    · cases hstep
  | _ =>
    simp only [State.step] at hstep
    split at hstep
    · cases hstep
      exact h.goto .idle
    · cases hstep

/-- What an action applies is a part of its worker's rows. -/
theorem applied_all (h : s.All E R) :
    (∀ r ∈ s.applied e, R r) ∧ ((s.applied e).map PublishedRow.key).Nodup := by
  have hnone :
    (∀ r ∈ ([] : List PublishedRow), R r) ∧ (([] : List PublishedRow).map PublishedRow.key).Nodup :=
    ⟨fun r hr => (by cases hr), List.nodup_nil⟩
  cases e with
  | write w =>
    have hw := h.stage w
    simp only [State.applied]
    split
    · next hstage =>
      rw [hstage] at hw
      split
      · exact ⟨hw.rows, hw.distinct⟩
      · exact hnone
    · exact hnone
  | writeRow w =>
    have hw := h.stage w
    simp only [State.applied]
    split
    · next hstage =>
      rw [hstage] at hw
      split
      · exact ⟨fun r' hr' => hw.rows r' (List.mem_singleton.mp hr' ▸ List.mem_cons_self ..),
          List.nodup_singleton _⟩
      · exact hnone
    · exact hnone
  | _ => exact hnone

end

end Oddzilla.Publisher
