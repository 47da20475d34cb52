import Oddzilla.Lib.Upserts
import Oddzilla.Feed.OddsChange

/-!
# One command for a message

The ingester writes all markets of a message with one command and all outcomes with
another, where the statements for one row would go through the message market by
market.  A message that names no row twice leaves the same rows either way, but for one
column: the command skips an outcome that it would write as it stands, so such a row
keeps its older `last_oddin_ts`.
-/

namespace Oddzilla.Catalog

def OddsMarket.upsert (m : OddsMarket) (msg : OddsChange) : MarketUpsert :=
  ⟨m.key msg.matchId, m.status, msg.timestamp⟩

def OddsMarket.outcomeUpserts (m : OddsMarket) (msg : OddsChange) : List OutcomeUpsert :=
  m.outcomes.map fun o =>
    ⟨m.key msg.matchId, o.id, o.name, o.odds, nullableProbability o.probability, o.isActive,
      msg.timestamp⟩

/-- The statements for one row, for one market and its outcomes. -/
def Offer.upsertMarket (msg : OddsChange) (db : Offer) (m : OddsMarket) : Offer where
  markets := fun k => UpsertMarket (m.upsert msg) (fun _ => none) k (db.markets k)
  outcomes := UpsertOutcomes (m.outcomeUpserts msg) db.outcomes

/-- The statements for one row, market by market. -/
def Offer.oneByOne (db : Offer) (msg : OddsChange) : Offer :=
  msg.markets.foldl (Offer.upsertMarket msg) db

/-! ## The tables as maps from one key -/

def Outcomes.rows (os : Outcomes) : MarketKey × OutcomeId → Option OutcomeRow := fun p => os p.1 p.2

theorem upsertMarkets_eq (ms : List MarketUpsert) (t : Markets) :
    (fun k => UpsertMarketsBulk ms (fun _ => none) k (t k)) =
      Upserts.bulk MarketUpsert.key MarketUpsert.row ms t := by
  funext k
  unfold UpsertMarketsBulk Upserts.bulk
  cases ms.find? fun m => m.key = k with
  | none => rfl
  | some m => rfl

theorem upsertOutcomesBulk_rows (os : List OutcomeUpsert) (db : Outcomes) :
    (UpsertOutcomesBulk os db).rows = Upserts.bulk OutcomeUpsert.pair OutcomeUpsert.row os db.rows := by
  funext ⟨k, id⟩
  have hpred : (fun o : OutcomeUpsert => decide (o.market = k) && decide (o.outcome = id)) =
      fun o => decide (o.pair = (k, id)) := by
    funext o
    rw [← Bool.decide_and]
    exact decide_eq_decide.mpr (by rw [OutcomeUpsert.pair, Prod.mk.injEq])
  unfold Outcomes.rows UpsertOutcomesBulk Upserts.bulk
  rw [hpred]
  cases os.find? fun o => o.pair = (k, id) with
  | none => rfl
  | some o => rfl

theorem upsertOutcomes_rows (os : List OutcomeUpsert) (db : Outcomes) :
    (UpsertOutcomes os db).rows = Upserts.oneByOne OutcomeUpsert.pair OutcomeUpsert.rowSet os db.rows := by
  induction os generalizing db with
  | nil => rfl
  | cons o os ih =>
    unfold UpsertOutcomes at ih ⊢
    rw [List.foldl_cons, ih]
    refine congrArg (Upserts.oneByOne OutcomeUpsert.pair OutcomeUpsert.rowSet os) ?_
    funext ⟨k, id⟩
    unfold Outcomes.rows Upserts.one OutcomeUpsert.pair
    simp only [Prod.mk.injEq, eq_comm]

/-! ## The two paths -/

theorem oneByOne_markets (db : Offer) (msg : OddsChange) :
    (db.oneByOne msg).markets =
      Upserts.oneByOne MarketUpsert.key MarketUpsert.row msg.marketUpserts db.markets := by
  suffices h : ∀ ms : List OddsMarket, (ms.foldl (Offer.upsertMarket msg) db).markets =
      Upserts.oneByOne MarketUpsert.key MarketUpsert.row (ms.map (·.upsert msg)) db.markets from
    h msg.markets
  intro ms
  induction ms generalizing db with
  | nil => rfl
  | cons m ms ih =>
    rw [List.foldl_cons, ih]
    rfl

theorem oneByOne_outcomes (db : Offer) (msg : OddsChange) :
    (db.oneByOne msg).outcomes.rows =
      Upserts.oneByOne OutcomeUpsert.pair OutcomeUpsert.rowSet msg.outcomeUpserts db.outcomes.rows := by
  suffices h : ∀ ms : List OddsMarket, (ms.foldl (Offer.upsertMarket msg) db).outcomes.rows =
      Upserts.oneByOne OutcomeUpsert.pair OutcomeUpsert.rowSet (ms.flatMap (·.outcomeUpserts msg))
        db.outcomes.rows from
    h msg.markets
  intro ms
  induction ms generalizing db with
  | nil => rfl
  | cons m ms ih =>
    rw [List.foldl_cons, ih, List.flatMap_cons, Upserts.oneByOne_append]
    exact congrArg _ (upsertOutcomes_rows (m.outcomeUpserts msg) db.outcomes)

/-- The guard of the command leaves out what would change the time alone. -/
theorem OutcomeUpsert.set_of_not_changes {o : OutcomeUpsert} {r : OutcomeRow}
    (h : o.changes r = false) :
    o.set r = { r with lastOddinTs := max r.lastOddinTs o.lastOddinTs } := by
  unfold changes at h
  simp only [Bool.or_eq_false_iff, decide_eq_false_iff_not, not_not, Bool.and_eq_false_iff] at h
  obtain ⟨⟨⟨hactive, hodds⟩, hprob⟩, hname⟩ := h
  have hor : ∀ a b : Option ℚ, (a.isSome = false ∨ b = a) → a.or b = b := by
    intro a b hab
    cases a with
    | none => rfl
    | some v =>
      rcases hab with h | rfl
      · cases h
      · rfl
  unfold set
  rw [← hactive, hor _ _ hodds, hor _ _ hprob]
  congr 1
  split
  · next hne =>
    rcases hname with h | h
    · exact absurd h hne
    · exact h.symm
  · rfl

/-- What the two make of a row. -/
theorem OutcomeUpsert.row_or (o : OutcomeUpsert) (old : Option OutcomeRow) :
    o.row old = o.rowSet old ∨ ∃ r, old = some r ∧ o.changes r = false ∧ o.row old = r ∧
      o.rowSet old = { r with lastOddinTs := max r.lastOddinTs o.lastOddinTs } := by
  cases old with
  | none => exact .inl rfl
  | some r =>
    cases h : o.changes r with
    | true => exact .inl (if_pos h)
    | false =>
      refine .inr ⟨r, rfl, h, ?_, set_of_not_changes h⟩
      show (if o.changes r = true then _ else r) = r
      rw [h]
      rfl

/-- Dropping what is missing reads the row itself only. -/
theorem dropMissing_congr {db db' : Offer} {msg : OddsChange} {k : MarketKey} {id : OutcomeId}
    (h : db.outcomes k id = db'.outcomes k id) :
    (db.dropMissing msg).outcomes k id = (db'.dropMissing msg).outcomes k id :=
  congrArg (Option.map _) h

/-- A message that names no row twice is handled, and the rows it leaves are those of
the statements for one row, but for the time of an outcome it says nothing new of. -/
theorem bulk_eq_oneByOne {db : Offer} {msg : OddsChange} (h : msg.unambiguous = true) :
    ∃ db', db.handleOddsChange msg = some db' ∧
      db'.markets = ((db.oneByOne msg).dropMissing msg).markets ∧
      ∀ k id, db'.outcomes k id = ((db.oneByOne msg).dropMissing msg).outcomes k id ∨
        ∃ u ∈ msg.outcomeUpserts, u.pair = (k, id) ∧
          ∃ r, db.outcomes k id = some r ∧ u.changes r = false ∧ db'.outcomes k id = some r ∧
            ((db.oneByOne msg).dropMissing msg).outcomes k id =
              some { r with lastOddinTs := max r.lastOddinTs u.lastOddinTs } := by
  have hkeys : (msg.marketUpserts.map MarketUpsert.key).Nodup ∧
      (msg.outcomeUpserts.map OutcomeUpsert.pair).Nodup := by
    rwa [OddsChange.unambiguous, Bool.and_eq_true, decide_eq_true_iff, decide_eq_true_iff] at h
  have hbulk : ((db.upsertMarkets msg).upsertOutcomes msg).outcomes.rows =
      Upserts.bulk OutcomeUpsert.pair OutcomeUpsert.row msg.outcomeUpserts db.outcomes.rows :=
    upsertOutcomesBulk_rows ..
  have hone : (db.oneByOne msg).outcomes.rows =
      Upserts.bulk OutcomeUpsert.pair OutcomeUpsert.rowSet msg.outcomeUpserts db.outcomes.rows := by
    rw [oneByOne_outcomes, Upserts.oneByOne_eq_bulk hkeys.2]
  refine ⟨_, if_pos h, ?_, fun k id => ?_⟩
  · show (fun k => UpsertMarketsBulk msg.marketUpserts (fun _ => none) k (db.markets k)) =
      (db.oneByOne msg).markets
    rw [oneByOne_markets, Upserts.oneByOne_eq_bulk hkeys.1, upsertMarkets_eq]
  · by_cases hlisted : ∃ u ∈ msg.outcomeUpserts, u.pair = (k, id)
    · obtain ⟨u, hu, hpair⟩ := hlisted
      obtain ⟨rfl, rfl⟩ := Prod.mk.injEq .. ▸ hpair
      have hdb' : ((db.upsertMarkets msg).upsertOutcomes msg).outcomes u.market u.outcome =
          some (u.row (db.outcomes u.market u.outcome)) :=
        (congrFun hbulk u.pair).trans (Upserts.bulk_of_mem hkeys.2 hu)
      have hdb₁ : (db.oneByOne msg).outcomes u.market u.outcome =
          some (u.rowSet (db.outcomes u.market u.outcome)) :=
        (congrFun hone u.pair).trans (Upserts.bulk_of_mem hkeys.2 hu)
      rw [dropMissing_listed hu, dropMissing_listed hu, hdb', hdb₁]
      rcases u.row_or (db.outcomes u.market u.outcome) with heq | ⟨r, hr, hsame, hrow, hset⟩
      · exact .inl (congrArg some heq)
      · exact .inr ⟨u, hu, rfl, r, hr, hsame, congrArg some hrow, congrArg some hset⟩
    · -- a row that the message does not list is dropped by both or by neither
      have hne : ∀ u ∈ msg.outcomeUpserts, u.pair ≠ (k, id) := fun u hu he => hlisted ⟨u, hu, he⟩
      refine .inl (dropMissing_congr ?_)
      have hdb' := (congrFun hbulk (k, id)).trans (Upserts.bulk_of_forall_ne hne)
      have hdb₁ := (congrFun hone (k, id)).trans (Upserts.bulk_of_forall_ne hne)
      exact hdb'.trans hdb₁.symm

/-! ## A price that stands -/

def mapOne : MarketKey := ⟨1, 4, "map=1".toList⟩

/-- One market with one outcome at 2.00. -/
def onOffer : Offer where
  markets := fun k => if k = mapOne then some ⟨1, 1⟩ else none
  outcomes := fun k id =>
    if k = mapOne ∧ id = "1" then some ⟨"home", some 2, some 2, none, true, 1⟩ else none

/-- The market once more, at the price and with further outcomes. -/
def quoteAgain (odds : ℚ) (more : List OddsOutcome) : OddsChange :=
  ⟨1, 2, [⟨4, "map=1", 1, ⟨"1", some odds, none, none, "home"⟩ :: more⟩]⟩

/-- Two outcomes of the market at 2.00. -/
def twoOnOffer : Offer where
  markets := onOffer.markets
  outcomes := fun k id => if k = mapOne ∧ id = "3" then some ⟨"draw", some 2, some 2, none, true, 1⟩
    else onOffer.outcomes k id

/-- One outcome gets a new price, one is new, one is missing, and a market is new. -/
def quoteTwo : OddsChange :=
  ⟨1, 2, [⟨4, "map=1", 1,
    [⟨"1", some 3, none, some 1, "home"⟩, ⟨"2", some 4, none, some 1, "away"⟩]⟩,
    ⟨5, "", 1, [⟨"1", some 5, none, some 1, "home"⟩]⟩]⟩

/-- All four are written either way. -/
theorem bulk_eq_oneByOne_two_markets : ∃ db', twoOnOffer.handleOddsChange quoteTwo = some db' ∧
    (["1", "2", "3"].map fun id => (db'.outcomes mapOne id).map fun r => (r.rawOdds, r.active)) =
      [some (some 3, true), some (some 4, true), some (none, false)] ∧
    (db'.outcomes ⟨1, 5, []⟩ "1").map OutcomeRow.rawOdds = some (some 5) ∧
    ∀ k, db'.markets k = ((twoOnOffer.oneByOne quoteTwo).dropMissing quoteTwo).markets k := by
  obtain ⟨db', hdb', hmarkets, -⟩ := @bulk_eq_oneByOne twoOnOffer quoteTwo (by decide)
  refine ⟨db', hdb', ?_, ?_, fun k => congrFun hmarkets k⟩
  · rw [← Option.some_inj.mp ((if_pos (by decide)).symm.trans hdb')]
    decide +kernel
  · rw [← Option.some_inj.mp ((if_pos (by decide)).symm.trans hdb')]
    decide +kernel

/-- The outcome that stands at its price keeps its time under the one command, and a
message that lists an outcome twice is not handled. -/
theorem standing_price_keeps_time :
    (¬ ∀ (db db' : Offer) (msg : OddsChange), db.handleOddsChange msg = some db' →
      db' = (db.oneByOne msg).dropMissing msg) ∧
    onOffer.handleOddsChange (quoteAgain 3 [⟨"1", some 2, none, none, "home"⟩]) = none := by
  refine ⟨fun h => ?_, by decide⟩
  have hone := h onOffer _ (quoteAgain 2 []) (if_pos (by decide))
  have htime :=
    congrArg (fun db : Offer => (db.outcomes mapOne "1").map OutcomeRow.lastOddinTs) hone
  revert htime
  decide

end Oddzilla.Catalog
