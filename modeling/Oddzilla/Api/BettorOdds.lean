import Oddzilla.Odds.Quote

/-!
# The bettor's adjustment at placement

`bettor-odds-adjustment.ts` and the part of `place()` that fixes the price of a
leg, next to `LoadBettorAdjustment` of the bet-delay store: both read the user's
rows of `bettor_odds_adjustment_config`.
-/

namespace Oddzilla

inductive AdjustmentScope
  | global | sport | tournament | match'
  deriving DecidableEq

/-- A row of `bettor_odds_adjustment_config`; the CHECK bounds the adjustment. -/
structure AdjustmentRow where
  scope : AdjustmentScope
  sportId : Option Nat
  tournamentId : Option Nat
  matchId : Option Nat
  adjustmentBp : Int
  bp_range : -9000 ≤ adjustmentBp ∧ adjustmentBp ≤ 9000

/-- `map.set`, skipped for a missing key. -/
def setKey (map : Nat → Option Int) (key : Option Nat) (bp : Int) : Nat → Option Int :=
  match key with
  | some k => Function.update map k (some bp)
  | none => map

/-- One row of `LoadBettorAdjustment`. -/
def BettorAdjustment.addRow (b : BettorAdjustment) (r : AdjustmentRow) : BettorAdjustment :=
  match r.scope with
  | .global => { b with globalBp := some r.adjustmentBp }
  | .sport => { b with bySport := setKey b.bySport r.sportId r.adjustmentBp }
  | .tournament => { b with byTournament := setKey b.byTournament r.tournamentId r.adjustmentBp }
  | .match' => { b with byMatch := setKey b.byMatch r.matchId r.adjustmentBp }

def loadBettorAdjustment (rows : List AdjustmentRow) : BettorAdjustment :=
  rows.foldl BettorAdjustment.addRow {}

namespace Api

/-- The cascade with the api's own flag for a user without rows. -/
structure BettorAdjustmentCascade where
  globalBp : Option Int := none
  bySport : Nat → Option Int := fun _ => none
  byTournament : Nat → Option Int := fun _ => none
  byMatch : Nat → Option Int := fun _ => none
  empty : Bool

def BettorAdjustmentCascade.addRow (c : BettorAdjustmentCascade) (r : AdjustmentRow) :
    BettorAdjustmentCascade :=
  match r.scope with
  | .global => { c with globalBp := some r.adjustmentBp }
  | .sport => { c with bySport := setKey c.bySport r.sportId r.adjustmentBp }
  | .tournament => { c with byTournament := setKey c.byTournament r.tournamentId r.adjustmentBp }
  | .match' => { c with byMatch := setKey c.byMatch r.matchId r.adjustmentBp }

def loadBettorAdjustmentCascade (rows : List AdjustmentRow) : BettorAdjustmentCascade :=
  if rows.isEmpty then { empty := true }
  else rows.foldl BettorAdjustmentCascade.addRow { empty := false }

def resolveBettorAdjustmentBp (c : BettorAdjustmentCascade)
    (matchId tournamentId sportId : Option Nat) : Int :=
  if c.empty then 0
  else
    ((matchId.bind c.byMatch).or ((tournamentId.bind c.byTournament).or
      ((sportId.bind c.bySport).or c.globalBp))).getD 0

/-- The price that is written, before it is formatted. -/
def adjustedOdds (raw : ℚ) (probability : Option ℚ) (bp : Int) : ℚ :=
  let adjusted := raw * (1 + bp / 10000)
  let capped :=
    match probability with
    | some p => if 0 < p ∧ p < 1 ∧ 1 / p < adjusted then 1 / p else adjusted
    | none => adjusted
  if capped < 1001 / 1000 then 1001 / 1000 else capped

def applyBettorAdjustment (raw : ℚ) (probability : Option ℚ) (bp : Int) : OddsText :=
  if raw ≤ 0 ∨ bp = 0 then formatOddsTrimNum raw
  else formatOddsTrimNum (adjustedOdds raw probability bp)

/-- `odds_at_placement` of a leg without a boost: the adjusted price, or the
published text for a user without rows and for the products that are not priced
from leg odds. -/
def placedOdds (betType : BetType) (rows : List AdjustmentRow) (matchId tournamentId sportId : Nat)
    (published : ℚ) (probability : Option ℚ) : ℚ :=
  if betType ≠ .single ∧ betType ≠ .combo ∨ (loadBettorAdjustmentCascade rows).empty then published
  else
    let adj := applyBettorAdjustment published probability
      (resolveBettorAdjustmentBp (loadBettorAdjustmentCascade rows) matchId tournamentId sportId)
    if 0 < adj.value then adj.value else published

end Api

/-- The cascade the worker evaluates with: none for the products that are not
priced from leg odds. -/
def workerAdjustment (betType : BetType) (rows : List AdjustmentRow) : BettorAdjustment :=
  if betType = .single ∨ betType = .combo then loadBettorAdjustment rows else {}

/-- Both loaders build the same maps. -/
theorem resolve_eq (rows : List AdjustmentRow) (matchId tournamentId sportId : Nat) :
    Api.resolveBettorAdjustmentBp (Api.loadBettorAdjustmentCascade rows)
      matchId tournamentId sportId =
      (loadBettorAdjustment rows).resolve matchId tournamentId sportId := by
  have hfold : ∀ (rs : List AdjustmentRow) (c : Api.BettorAdjustmentCascade) (b : BettorAdjustment),
      c.empty = false → c.globalBp = b.globalBp → c.bySport = b.bySport →
      c.byTournament = b.byTournament → c.byMatch = b.byMatch →
      Api.resolveBettorAdjustmentBp (rs.foldl Api.BettorAdjustmentCascade.addRow c) matchId tournamentId
        sportId = (rs.foldl BettorAdjustment.addRow b).resolve matchId tournamentId sportId := by
    intro rs
    induction rs with
    | nil =>
      intro c b he hg hs ht hm
      show (if c.empty then 0 else ((Option.bind (some matchId) c.byMatch).or
        ((Option.bind (some tournamentId) c.byTournament).or
          ((Option.bind (some sportId) c.bySport).or c.globalBp))).getD 0) = _
      rw [he, hg, hs, ht, hm]
      rfl
    | cons r rs ih =>
      intro c b he hg hs ht hm
      refine ih _ _ ?_ ?_ ?_ ?_ ?_
      all_goals
        unfold Api.BettorAdjustmentCascade.addRow
        try unfold BettorAdjustment.addRow
        cases r.scope <;> simp_all
  cases rows with
  | nil => rfl
  | cons r rs => exact hfold (r :: rs) _ _ rfl rfl rfl rfl rfl

end Oddzilla
