import Mathlib
import Oddzilla.Feed.Messages

/-!
# The backup feed's settlements

Bifrost tells the state of a match in snapshots, not in messages.  The adapter
reads a `bet_settlement` off a snapshot: every CLOSED market whose outcomes have
all come to a result becomes one `<market>` element, and settlement cannot tell
it from one of Oddin's own.

The ids of a snapshot are opaque texts; `ParseMarketID` and `ParseOutcomeID` are
given.
-/

namespace Oddzilla.Bifrost

/-- What a market id stands for: Oddin's market id and the canonical specifiers. -/
structure MarketKey where
  providerMarketId : Int
  specifiers : String
  deriving DecidableEq, Repr

/-- The decoders of Bifrost's ids; `none` where they return an error. -/
structure Ids where
  parseMarketId : String → Option MarketKey
  parseOutcomeId : String → Option OutcomeId

inductive MarketState where
  | open
  | suspended
  | closed
  | other (text : String)
  deriving DecidableEq, Repr

/-- An `inactive` outcome is one that Bifrost stopped offering before it was
resolved. -/
inductive OutcomeStatus where
  | open
  | suspended
  | inactive
  | won
  | lost
  | halfWon
  | halfLost
  | voided
  | other (text : String)
  deriving DecidableEq, Repr

structure Outcome where
  id : String
  status : OutcomeStatus
  deriving DecidableEq, Repr

structure Market where
  id : String
  state : MarketState
  outcomes : List Outcome
  deriving DecidableEq, Repr

/-- A snapshot: the markets of each market group. -/
structure Match where
  marketGroups : List (List Market)
  deriving DecidableEq, Repr

/-! ## collectMarkets -/

structure KeyedOutcome where
  id : OutcomeId
  status : OutcomeStatus
  deriving DecidableEq, Repr

structure KeyedMarket where
  key : MarketKey
  state : MarketState
  outcomes : List KeyedOutcome
  deriving DecidableEq, Repr

variable (ids : Ids)

/-- An outcome whose id does not decode, or decodes to nothing, is left out. -/
def keyOutcome (o : Outcome) : Option KeyedOutcome :=
  match ids.parseOutcomeId o.id with
  | none => none
  | some oid => if oid = "" then none else some ⟨oid, o.status⟩

/-- The loop over the markets, with the keys already `seen`. -/
def collectFrom (seen : List MarketKey) : List Market → List KeyedMarket
  | [] => []
  | mk :: rest =>
    match ids.parseMarketId mk.id with
    | none => collectFrom seen rest
    | some key =>
      if key ∈ seen then collectFrom seen rest
      else ⟨key, mk.state, mk.outcomes.filterMap (keyOutcome ids)⟩ :: collectFrom (key :: seen) rest

def KeyedMarket.le (a b : KeyedMarket) : Bool :=
  if a.key.providerMarketId ≠ b.key.providerMarketId then
    a.key.providerMarketId < b.key.providerMarketId
  else textLe a.key.specifiers.toList b.key.specifiers.toList

def collectMarkets (m : Match) : List KeyedMarket :=
  (collectFrom ids [] m.marketGroups.flatten).insertionSort fun a b => a.le b

/-! ## SettleCandidates -/

/-- The `result` and `void_factor` of a terminal status. -/
def settleFor : OutcomeStatus → Option (String × String)
  | .won => some ("1", "")
  | .lost => some ("0", "")
  | .halfWon => some ("1", "0.5")
  | .halfLost => some ("0", "0.5")
  | .voided => some ("0", "1")
  | _ => none

structure SettleCandidate where
  key : MarketKey
  outcomes : List FeedOutcome
  deriving DecidableEq, Repr

/-- The outcomes of a CLOSED market; `none` when one of them is still open. -/
def settledOutcomes : List KeyedOutcome → Option (List FeedOutcome)
  | [] => some []
  | ko :: rest =>
    if ko.status = .inactive then settledOutcomes rest
    else
      match settleFor ko.status with
      | none => none
      | some (result, voidFactor) =>
        (settledOutcomes rest).map (⟨ko.id, result, voidFactor⟩ :: ·)

def settleCandidate (km : KeyedMarket) : Option SettleCandidate :=
  if km.state ≠ .closed then none
  else
    match settledOutcomes km.outcomes with
    | none => none
    | some outcomes => if outcomes = [] then none else some ⟨km.key, outcomes⟩

def settleCandidates (m : Match) : List SettleCandidate :=
  (collectMarkets ids m).filterMap settleCandidate

/-- One `<market>` of the document `BetSettlement` renders. -/
def betSettlement (c : SettleCandidate) : FeedMarket :=
  { id := c.key.providerMarketId, specifiers := c.key.specifiers, outcomes := c.outcomes }

/-! ## What a candidate lists -/

variable {ids}

theorem collectFrom_keys {seen : List MarketKey} {markets : List Market} :
    ((collectFrom ids seen markets).map (·.key)).Nodup ∧
      ∀ km ∈ collectFrom ids seen markets, km.key ∉ seen := by
  induction markets generalizing seen with
  | nil => exact ⟨List.nodup_nil, fun km h => by cases h⟩
  | cons mk rest ih =>
    unfold collectFrom
    cases ids.parseMarketId mk.id with
    | none => exact ih
    | some key =>
      by_cases hk : key ∈ seen
      · simp only [if_pos hk]
        exact ih
      · simp only [if_neg hk]
        obtain ⟨hnodup, hfresh⟩ := @ih (key :: seen)
        refine ⟨?_, fun km hkm => ?_⟩
        · rw [List.map_cons, List.nodup_cons]
          refine ⟨fun hmem => ?_, hnodup⟩
          obtain ⟨km, hkm, he⟩ := List.mem_map.mp hmem
          exact hfresh km hkm (he ▸ List.mem_cons_self ..)
        · rcases List.mem_cons.mp hkm with rfl | hkm
          · exact hk
          · exact fun hin => hfresh km hkm (List.mem_cons_of_mem _ hin)

/-- A snapshot's market is keyed once. -/
theorem collectMarkets_inj {m : Match} {a b : KeyedMarket} (ha : a ∈ collectMarkets ids m)
    (hb : b ∈ collectMarkets ids m) (h : a.key = b.key) : a = b := by
  unfold collectMarkets at ha hb
  rw [List.mem_insertionSort] at ha hb
  exact List.inj_on_of_nodup_map collectFrom_keys.1 ha hb h

theorem settledOutcomes_lists {outs : List KeyedOutcome} {settled : List FeedOutcome}
    (h : settledOutcomes outs = some settled) (o : OutcomeId) :
    (∃ e ∈ settled, e.id = o) ↔ ∃ ko ∈ outs, ko.id = o ∧ ko.status ≠ .inactive := by
  induction outs generalizing settled with
  | nil =>
    cases h
    simp
  | cons ko rest ih =>
    unfold settledOutcomes at h
    by_cases hin : ko.status = .inactive
    · rw [if_pos hin] at h
      simp [ih h, hin]
    · rw [if_neg hin] at h
      cases hs : settleFor ko.status with
      | none =>
        rw [hs] at h
        cases h
      | some rv =>
        rw [hs] at h
        obtain ⟨more, hmore, rfl⟩ := Option.map_eq_some_iff.mp h
        simp [ih hmore, hin]

theorem settleCandidate_eq_some {km : KeyedMarket} {c : SettleCandidate} :
    settleCandidate km = some c ↔ km.state = .closed ∧ c.key = km.key ∧ c.outcomes ≠ [] ∧
      settledOutcomes km.outcomes = some c.outcomes := by
  obtain ⟨key, outcomes⟩ := c
  unfold settleCandidate
  by_cases hstate : km.state = .closed
  · rw [if_neg (not_not.mpr hstate)]
    cases hs : settledOutcomes km.outcomes with
    | none => simp
    | some outs =>
      by_cases hnil : outs = []
      · subst hnil
        simp only [if_true, reduceCtorEq, false_iff]
        rintro ⟨-, -, hne, heq⟩
        exact hne (Option.some.inj heq).symm
      · simp only [if_neg hnil, Option.some.injEq, SettleCandidate.mk.injEq]
        constructor
        · rintro ⟨rfl, rfl⟩
          exact ⟨hstate, rfl, hnil, rfl⟩
        · rintro ⟨-, rfl, -, rfl⟩
          exact ⟨rfl, rfl⟩
  · rw [if_pos hstate]
    simp [hstate]

/-- A candidate lists the outcomes of its market that the snapshot does not show
as INACTIVE, and no others. -/
theorem settleCandidates_lists {m : Match} {c : SettleCandidate}
    (hc : c ∈ settleCandidates ids m) (o : OutcomeId) :
    (∃ e ∈ (betSettlement c).outcomes, e.id = o) ↔
      ∃ km ∈ collectMarkets ids m, km.key = c.key ∧
        ∃ ko ∈ km.outcomes, ko.id = o ∧ ko.status ≠ .inactive := by
  obtain ⟨km, hkm, hcand⟩ := List.mem_filterMap.mp hc
  obtain ⟨-, hkey, -, houts⟩ := settleCandidate_eq_some.mp hcand
  refine (settledOutcomes_lists houts o).trans ?_
  constructor
  · intro h
    exact ⟨km, hkm, hkey.symm, h⟩
  · rintro ⟨km', hkm', hkey', h⟩
    obtain rfl := collectMarkets_inj hkm' hkm (hkey'.trans hkey)
    exact h

end Oddzilla.Bifrost
