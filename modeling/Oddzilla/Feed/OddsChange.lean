import Oddzilla.Lib.Trace
import Oddzilla.Feed.Catalog

/-!
# `odds_change`

`handleOddsChange` writes the markets of a message, then their outcomes, then drops
the outcomes an active market no longer lists.  An error in the first two statements
sends the message back to the queue; the third may fail and the message is done.
-/

namespace Oddzilla.Catalog

/-- `odds` and `probabilities` as numbers, without a text where the feed sends none. -/
structure OddsOutcome where
  id : OutcomeId
  odds : Option ℚ
  probability : Option ℚ
  active : Option Int
  name : String

structure OddsMarket where
  id : Int
  specifiers : String
  status : Int
  outcomes : List OddsOutcome

/-- One message; its match is resolved. -/
structure OddsChange where
  matchId : MatchId
  timestamp : Int
  markets : List OddsMarket

def OddsMarket.key (m : OddsMarket) (matchId : MatchId) : MarketKey :=
  ⟨matchId, m.id, specifiersHash m.specifiers⟩

def OddsOutcome.isActive (o : OddsOutcome) : Bool := o.active.all (· = 1)

/-- A probability outside of `[0, 1]` is dropped. -/
def nullableProbability (p : Option ℚ) : Option ℚ := p.filter fun p => 0 ≤ p && p ≤ 1

def OddsChange.marketUpserts (msg : OddsChange) : List MarketUpsert :=
  msg.markets.map fun m => ⟨m.key msg.matchId, m.status, msg.timestamp⟩

def OddsChange.outcomeUpserts (msg : OddsChange) : List OutcomeUpsert :=
  msg.markets.flatMap fun m => m.outcomes.map fun o =>
    ⟨m.key msg.matchId, o.id, o.name, o.odds, nullableProbability o.probability, o.isActive,
      msg.timestamp⟩

def OddsChange.scope (msg : OddsChange) : List MarketKey :=
  (msg.markets.filter (·.status = 1)).map fun m => m.key msg.matchId

def OutcomeUpsert.pair (o : OutcomeUpsert) : MarketKey × OutcomeId := (o.market, o.outcome)

def OddsChange.keeps (msg : OddsChange) : List (MarketKey × OutcomeId) :=
  (msg.outcomeUpserts.filter fun o => msg.scope.contains o.market).map OutcomeUpsert.pair

/-- The two tables. -/
structure Offer where
  markets : Markets
  outcomes : Outcomes

/-- One command must not touch a row twice. -/
def OddsChange.unambiguous (msg : OddsChange) : Bool :=
  decide (msg.marketUpserts.map MarketUpsert.key).Nodup && decide (msg.outcomeUpserts.map OutcomeUpsert.pair).Nodup

def Offer.upsertMarkets (db : Offer) (msg : OddsChange) : Offer :=
  { db with markets := fun k => UpsertMarketsBulk msg.marketUpserts (fun _ => none) k (db.markets k) }

def Offer.upsertOutcomes (db : Offer) (msg : OddsChange) : Offer :=
  { db with outcomes := UpsertOutcomesBulk msg.outcomeUpserts db.outcomes }

def Offer.dropMissing (db : Offer) (msg : OddsChange) : Offer :=
  { db with outcomes := DeactivateMissingOutcomes msg.scope msg.keeps msg.timestamp db.outcomes }

/-- The handler without a failure; a message that lists a row twice never gets through. -/
def Offer.handleOddsChange (db : Offer) (msg : OddsChange) : Option Offer :=
  if msg.unambiguous then some (((db.upsertMarkets msg).upsertOutcomes msg).dropMissing msg) else none

/-- What happens to the offer of one match: a message is handled; it comes back to the
queue, with its markets written or not; its last statement fails; the settlement
service sets the status of a market. -/
inductive OfferEvent
  | handle (msg : OddsChange)
  | nack (msg : OddsChange) (wroteMarkets : Bool)
  | handleNoDrop (msg : OddsChange)
  | settle (k : MarketKey) (status oddinTs : Int)

def Offer.step (db : Offer) : OfferEvent → Option Offer
  | .handle msg => db.handleOddsChange msg
  | .nack msg wroteMarkets =>
    some (if wroteMarkets && decide (msg.marketUpserts.map MarketUpsert.key).Nodup then db.upsertMarkets msg
      else db)
  | .handleNoDrop msg =>
    if msg.unambiguous then some ((db.upsertMarkets msg).upsertOutcomes msg) else none
  | .settle k status oddinTs =>
    some { db with markets := fun k' => SetMarketStatus k status oddinTs (fun _ => none) k' (db.markets k') }

def OddsChange.mentions (msg : OddsChange) (k : MarketKey) : Bool :=
  msg.markets.any fun m => m.key msg.matchId = k

/-- The message of an event, when it has one. -/
def OfferEvent.message : OfferEvent → Option OddsChange
  | .handle msg => some msg
  | .nack msg _ => some msg
  | .handleNoDrop msg => some msg
  | .settle .. => none

/-- The event may write the market. -/
def OfferEvent.touches (e : OfferEvent) (k : MarketKey) : Bool :=
  match e with
  | .settle k' _ _ => k' = k
  | e => e.message.any (·.mentions k)

/-! ## What a message leaves alone -/

theorem find_marketUpserts {msg : OddsChange} {k : MarketKey} (h : msg.mentions k = false) :
    msg.marketUpserts.find? (fun m => m.key = k) = none := by
  rw [List.find?_eq_none]
  intro m hm
  obtain ⟨om, hom, rfl⟩ := List.mem_map.mp hm
  have hne := List.any_eq_false.mp h om hom
  simpa using hne

theorem find_outcomeUpserts {msg : OddsChange} {k : MarketKey} (h : msg.mentions k = false)
    (id : OutcomeId) :
    msg.outcomeUpserts.find?
      (fun o => decide (o.market = k) && decide (o.outcome = id)) = none := by
  rw [List.find?_eq_none]
  intro o ho
  obtain ⟨om, hom, ho⟩ := List.mem_flatMap.mp ho
  obtain ⟨oo, -, rfl⟩ := List.mem_map.mp ho
  have hne := List.any_eq_false.mp h om hom
  simp only [decide_eq_true_iff] at hne
  simp [hne]

theorem scope_not_mem {msg : OddsChange} {k : MarketKey} (h : msg.mentions k = false) :
    k ∉ msg.scope := by
  intro hk
  obtain ⟨m, hm, rfl⟩ := List.mem_map.mp hk
  have hne := List.any_eq_false.mp h m (List.mem_filter.mp hm).1
  simp at hne

/-- The rows of a market. -/
def Offer.Same (db db' : Offer) (k : MarketKey) : Prop :=
  db'.markets k = db.markets k ∧ ∀ id, db'.outcomes k id = db.outcomes k id

theorem Offer.Same.refl (db : Offer) (k : MarketKey) : db.Same db k := ⟨rfl, fun _ => rfl⟩

theorem Offer.Same.trans {db db' db'' : Offer} {k : MarketKey} (h : db.Same db' k)
    (h' : db'.Same db'' k) :
    db.Same db'' k :=
  ⟨h'.1.trans h.1, fun id => (h'.2 id).trans (h.2 id)⟩

theorem upsertMarkets_same {msg : OddsChange} {k : MarketKey} (h : msg.mentions k = false)
    (db : Offer) :
    db.Same (db.upsertMarkets msg) k := by
  refine ⟨?_, fun _ => rfl⟩
  show UpsertMarketsBulk msg.marketUpserts (fun _ => none) k (db.markets k) = _
  unfold UpsertMarketsBulk
  rw [find_marketUpserts h]

theorem upsertOutcomes_same {msg : OddsChange} {k : MarketKey} (h : msg.mentions k = false)
    (db : Offer) :
    db.Same (db.upsertOutcomes msg) k := by
  refine ⟨rfl, fun id => ?_⟩
  show UpsertOutcomesBulk msg.outcomeUpserts db.outcomes k id = _
  unfold UpsertOutcomesBulk
  rw [find_outcomeUpserts h]

theorem dropMissing_same {msg : OddsChange} {k : MarketKey} (h : msg.mentions k = false)
    (db : Offer) :
    db.Same (db.dropMissing msg) k := by
  refine ⟨rfl, fun id => ?_⟩
  show DeactivateMissingOutcomes msg.scope msg.keeps msg.timestamp db.outcomes k id = _
  unfold DeactivateMissingOutcomes
  cases db.outcomes k id with
  | none => rfl
  | some r => simp [scope_not_mem h]

/-- An event that does not touch a market keeps its rows. -/
theorem step_same {db db' : Offer} {e : OfferEvent} {k : MarketKey} (hstep : db.step e = some db')
    (h : e.touches k = false) : db.Same db' k := by
  cases e with
  | handle msg =>
    have hm : msg.mentions k = false := by simpa [OfferEvent.touches, OfferEvent.message] using h
    simp only [Offer.step, Offer.handleOddsChange, Option.ite_none_right_eq_some,
      Option.some_inj] at hstep
    rw [← hstep.2]
    exact ((upsertMarkets_same hm _).trans (upsertOutcomes_same hm _)).trans (dropMissing_same hm _)
  | nack msg wroteMarkets =>
    have hm : msg.mentions k = false := by simpa [OfferEvent.touches, OfferEvent.message] using h
    simp only [Offer.step, Option.some_inj] at hstep
    rw [← hstep]
    split
    · exact upsertMarkets_same hm _
    · exact Offer.Same.refl _ _
  | handleNoDrop msg =>
    have hm : msg.mentions k = false := by simpa [OfferEvent.touches, OfferEvent.message] using h
    simp only [Offer.step, Option.ite_none_right_eq_some, Option.some_inj] at hstep
    rw [← hstep.2]
    exact (upsertMarkets_same hm _).trans (upsertOutcomes_same hm _)
  | settle k' status oddinTs =>
    have hk : k' ≠ k := by simpa [OfferEvent.touches] using h
    simp only [Offer.step, Option.some_inj] at hstep
    rw [← hstep]
    refine ⟨?_, fun _ => rfl⟩
    show SetMarketStatus k' status oddinTs (fun _ => none) k (db.markets k) = _
    unfold SetMarketStatus updateWhere
    cases db.markets k with
    | none => rfl
    | some r => simp [Ne.symm hk]

theorem run_same {db db' : Offer} {es : List OfferEvent} {k : MarketKey}
    (hrun : Trace.run Offer.step db es = some db')
    (h : ∀ e ∈ es, e.touches k = false) : db.Same db' k := by
  induction es generalizing db with
  | nil =>
    cases hrun
    exact Offer.Same.refl _ _
  | cons e es ih =>
    obtain ⟨u, hu, hrun⟩ := Trace.run_cons.mp hrun
    exact (step_same hu (h e (List.mem_cons_self ..))).trans
      (ih hrun fun e' he' => h e' (List.mem_cons_of_mem _ he'))

/-! ## What a message leaves behind -/

/-- The market stands as the message says: its status, the flags and the odds of the
outcomes it lists, and no other active outcome when it is active. -/
structure Offer.Shows (db : Offer) (msg : OddsChange) (om : OddsMarket) : Prop where
  status : (db.markets (om.key msg.matchId)).map MarketRow.status = some om.status
  listed : ∀ o ∈ om.outcomes, ∃ r, db.outcomes (om.key msg.matchId) o.id = some r ∧
    r.active = o.isActive ∧
    ∀ v, o.odds = some v → r.rawOdds = some v
  unlisted : om.status = 1 → ∀ id, id ∉ om.outcomes.map OddsOutcome.id →
    ∀ r, db.outcomes (om.key msg.matchId) id = some r → r.active = false

theorem Offer.Shows.of_same {db db' : Offer} {msg : OddsChange} {om : OddsMarket}
    (h : db.Shows msg om)
    (hsame : db.Same db' (om.key msg.matchId)) : db'.Shows msg om := by
  constructor
  · rw [hsame.1]
    exact h.status
  · intro o ho
    rw [hsame.2]
    exact h.listed o ho
  · intro hs id hid
    rw [hsame.2]
    exact h.unlisted hs id hid

/-- The one element of a list with a key. -/
theorem find_of_nodup {α κ : Type} [DecidableEq κ] {l : List α} {f : α → κ} (h : (l.map f).Nodup)
    {a : α}
    (ha : a ∈ l) {p : α → Bool} (hp : ∀ b, p b = true ↔ f b = f a) : l.find? p = some a := by
  induction l with
  | nil => cases ha
  | cons b l ih =>
    obtain ⟨hb, hl⟩ := List.nodup_cons.mp h
    rcases List.mem_cons.mp ha with rfl | ha
    · rw [List.find?_cons_of_pos]
      exact (hp a).mpr rfl
    · rw [List.find?_cons_of_neg, ih hl ha]
      rw [hp b]
      exact fun he => hb (he ▸ List.mem_map_of_mem ha)

theorem mem_outcomeUpserts {msg : OddsChange} {om : OddsMarket} (hom : om ∈ msg.markets)
    {o : OddsOutcome}
    (ho : o ∈ om.outcomes) :
    ⟨om.key msg.matchId, o.id, o.name, o.odds, nullableProbability o.probability, o.isActive,
      msg.timestamp⟩ ∈
      msg.outcomeUpserts :=
  List.mem_flatMap.mpr ⟨om, hom, List.mem_map.mpr ⟨o, ho, rfl⟩⟩

/-- The last statement keeps what the message lists. -/
theorem dropMissing_listed {msg : OddsChange} {u : OutcomeUpsert} (hu : u ∈ msg.outcomeUpserts)
    (db : Offer) :
    (db.dropMissing msg).outcomes u.market u.outcome = db.outcomes u.market u.outcome := by
  show DeactivateMissingOutcomes msg.scope msg.keeps msg.timestamp db.outcomes u.market u.outcome = _
  unfold DeactivateMissingOutcomes
  cases hr : db.outcomes u.market u.outcome with
  | none => rfl
  | some r =>
    rw [Option.map_some]
    by_cases hscope : u.market ∈ msg.scope
    · have hkeep : (u.market, u.outcome) ∈ msg.keeps :=
        List.mem_map.mpr ⟨u, List.mem_filter.mpr ⟨hu, by simpa using hscope⟩, rfl⟩
      simp [hkeep]
    · simp [hscope]

/-- The pairs of a market are those of its one element in the message. -/
theorem not_mem_keeps {msg : OddsChange} (hmarkets : (msg.marketUpserts.map MarketUpsert.key).Nodup)
    {om : OddsMarket} (hom : om ∈ msg.markets) {id : OutcomeId}
    (hid : id ∉ om.outcomes.map OddsOutcome.id) :
    (om.key msg.matchId, id) ∉ msg.keeps := by
  intro hmem
  obtain ⟨u, hu, hpair⟩ := List.mem_map.mp hmem
  obtain ⟨om', hom', hu⟩ := List.mem_flatMap.mp (List.mem_filter.mp hu).1
  obtain ⟨o, ho, rfl⟩ := List.mem_map.mp hu
  unfold OutcomeUpsert.pair at hpair
  rw [Prod.mk.injEq] at hpair
  have hkeys : (msg.markets.map fun m => m.key msg.matchId).Nodup := by
    unfold OddsChange.marketUpserts at hmarkets
    rwa [List.map_map] at hmarkets
  have hsame : om' = om := List.inj_on_of_nodup_map hkeys hom' hom hpair.1
  subst hsame
  exact hid (List.mem_map.mpr ⟨o, ho, hpair.2⟩)

/-- A handled message shows in every market that is not terminal. -/
theorem handle_shows {db db' : Offer} {msg : OddsChange} (h : db.handleOddsChange msg = some db')
    {om : OddsMarket} (hom : om ∈ msg.markets)
    (hlive : ∀ r, db'.markets (om.key msg.matchId) = some r → isTerminal r.status = false) : db'.Shows msg om := by
  unfold Offer.handleOddsChange at h
  simp only [Option.ite_none_right_eq_some, Option.some_inj, OddsChange.unambiguous, Bool.and_eq_true,
    decide_eq_true_iff] at h
  obtain ⟨⟨hmarkets, houtcomes⟩, rfl⟩ := h
  have hfind : msg.marketUpserts.find? (fun m => m.key = om.key msg.matchId) =
      some ⟨om.key msg.matchId, om.status, msg.timestamp⟩ :=
    find_of_nodup hmarkets (List.mem_map.mpr ⟨om, hom, rfl⟩) fun b => decide_eq_true_iff
  have hrow : (((db.upsertMarkets msg).upsertOutcomes msg).dropMissing msg).markets
    (om.key msg.matchId) =
      some (MarketUpsert.row ⟨om.key msg.matchId, om.status, msg.timestamp⟩
        (db.markets (om.key msg.matchId))) := by
    show UpsertMarketsBulk msg.marketUpserts (fun _ => none) _ _ = _
    unfold UpsertMarketsBulk
    rw [hfind]
  have hlisted : ∀ o ∈ om.outcomes, ∃ old,
      (((db.upsertMarkets msg).upsertOutcomes msg).dropMissing msg).outcomes (om.key msg.matchId) o.id =
        some (OutcomeUpsert.row ⟨om.key msg.matchId, o.id, o.name, o.odds, nullableProbability o.probability,
          o.isActive, msg.timestamp⟩ old) := by
    intro o ho
    have hu := mem_outcomeUpserts hom ho
    refine ⟨db.outcomes (om.key msg.matchId) o.id, ?_⟩
    rw [dropMissing_listed hu]
    show UpsertOutcomesBulk msg.outcomeUpserts db.outcomes _ _ = _
    unfold UpsertOutcomesBulk
    rw [find_of_nodup houtcomes hu]
    intro b
    rw [Bool.and_eq_true, decide_eq_true_iff, decide_eq_true_iff]
    exact Prod.mk.injEq .. ▸ Iff.rfl
  constructor
  · rw [hrow, Option.map_some]
    have hstatus := hlive _ hrow
    cases hold : db.markets (om.key msg.matchId) with
    | none => rfl
    | some r =>
      rw [hold] at hstatus
      -- a terminal row would have stayed terminal
      have hr : ¬ isTerminal r.status = true := by
        intro ht
        rw [show MarketUpsert.row _ (some r) = r from onConflict_terminal _ ht, ht] at hstatus
        cases hstatus
      show some (if isTerminal r.status = true then r.status else om.status) = _
      rw [if_neg hr]
  · intro o ho
    obtain ⟨old, hold⟩ := hlisted o ho
    exact ⟨_, hold, OutcomeUpsert.row_active _ old, fun v hv => OutcomeUpsert.row_rawOdds hv old⟩
  · intro hs id hid r hr
    have hscope : om.key msg.matchId ∈ msg.scope :=
      List.mem_map.mpr ⟨om, List.mem_filter.mpr ⟨hom, by simpa using hs⟩, rfl⟩
    have hkeep : (om.key msg.matchId, id) ∉ msg.keeps := not_mem_keeps hmarkets hom hid
    obtain ⟨r₀, -, rfl⟩ := Option.map_eq_some_iff.mp hr
    cases hactive : r₀.active with
    | true => simp [hscope, hkeep, OutcomeRow.dropped]
    | false => simp [hactive]

end Oddzilla.Catalog
