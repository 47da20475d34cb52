import Oddzilla.Api.BettorOdds

/-!
# The adjustment in the gateway

`bettor-adjustment.ts` of the ws-gateway: its own loader of the cascade, its own
resolution and its own arithmetic, next to those of the api.
-/

namespace Oddzilla.Gateway

structure BettorAdjustmentCascade where
  globalBp : Option Int := none
  bySport : Nat → Option Int := fun _ => none
  byTournament : Nat → Option Int := fun _ => none
  byMatch : Nat → Option Int := fun _ => none
  empty : Bool

def EMPTY_CASCADE : BettorAdjustmentCascade := { empty := true }

/-- The switch on the scope of a row. -/
def BettorAdjustmentCascade.addRow (c : BettorAdjustmentCascade) (r : AdjustmentRow) :
    BettorAdjustmentCascade :=
  match r.scope with
  | .global => { c with globalBp := some r.adjustmentBp }
  | .sport => { c with bySport := setKey c.bySport r.sportId r.adjustmentBp }
  | .tournament => { c with byTournament := setKey c.byTournament r.tournamentId r.adjustmentBp }
  | .match' => { c with byMatch := setKey c.byMatch r.matchId r.adjustmentBp }

def loadCascade (rows : List AdjustmentRow) : BettorAdjustmentCascade :=
  if rows.isEmpty then EMPTY_CASCADE else rows.foldl BettorAdjustmentCascade.addRow { empty := false }

def resolveBp (c : BettorAdjustmentCascade) (matchId tournamentId sportId : Nat) : Int :=
  if c.empty then 0
  else ((c.byMatch matchId).or ((c.byTournament tournamentId).or ((c.bySport sportId).or c.globalBp))).getD 0

def applyAdjustment (rawOdds : OddsText) (probability : Option ℚ) (bp : Int) : OddsText :=
  if bp = 0 then rawOdds
  else
    let raw := rawOdds.value
    if raw ≤ 0 then rawOdds
    else
      let adjusted := raw * (1 + bp / 10000)
      let capped :=
        match probability with
        | some p => if 0 < p ∧ p < 1 ∧ 1 / p < adjusted then 1 / p else adjusted
        | none => adjusted
      let floored := if capped < 1001 / 1000 then 1001 / 1000 else capped
      renderTs ⌊quoteOnLadder floored * 10000 + 1 / 10 ^ 6⌋.toNat

/-- The fields of a frame the gateway reads. -/
structure OddsFrame where
  matchId : Nat
  marketId : Nat
  outcomeId : String
  publishedOdds : OddsText
  probability : Option ℚ
  sportId : Option Nat
  tournamentId : Option Nat

/-- A message on the channel of a match: a frame, or a text that does not parse. -/
inductive Payload
  | frame (frame : OddsFrame)
  | text (text : String)

/-- What `dispatchOdds` sends a client in place of the payload. -/
def outboundFor (cascade : Option BettorAdjustmentCascade) : Payload → Payload
  | .text t => .text t
  | .frame f =>
    match cascade, f.sportId, f.tournamentId with
    | some c, some sportId, some tournamentId =>
      if c.empty then .frame f
      else
        let bp := resolveBp c f.matchId tournamentId sportId
        if bp = 0 then .frame f
        else .frame { f with publishedOdds := applyAdjustment f.publishedOdds f.probability bp }
    | _, _, _ => .frame f

theorem resolveBp_of_empty {c : BettorAdjustmentCascade} (h : c.empty = true)
    (matchId tournamentId sportId : Nat) :
    resolveBp c matchId tournamentId sportId = 0 := by
  unfold resolveBp
  rw [if_pos h]

/-- A frame goes out with the adjusted price, which for no adjustment is its own. -/
theorem publishedOdds_of_outboundFor {c : BettorAdjustmentCascade} {f g : OddsFrame}
    {sportId tournamentId : Nat}
    (hs : f.sportId = some sportId) (ht : f.tournamentId = some tournamentId)
    (h : outboundFor (some c) (.frame f) = .frame g) :
    g.publishedOdds = applyAdjustment f.publishedOdds f.probability
      (resolveBp c f.matchId tournamentId sportId) := by
  simp only [outboundFor, hs, ht] at h
  split at h
  · next hempty =>
    cases h
    rw [resolveBp_of_empty hempty]
    rfl
  · split at h
    · next hzero =>
      cases h
      rw [hzero]
      rfl
    · cases h
      rfl

/-! ## Against the api -/

/-- The two services hold the same maps. -/
structure Agree (c : BettorAdjustmentCascade) (c' : Api.BettorAdjustmentCascade) : Prop where
  empty : c.empty = c'.empty
  globalBp : c.globalBp = c'.globalBp
  bySport : c.bySport = c'.bySport
  byTournament : c.byTournament = c'.byTournament
  byMatch : c.byMatch = c'.byMatch

theorem Agree.addRow {c : BettorAdjustmentCascade} {c' : Api.BettorAdjustmentCascade}
    (h : Agree c c')
    (r : AdjustmentRow) : Agree (c.addRow r) (c'.addRow r) := by
  obtain ⟨he, hg, hs, ht, hm⟩ := h
  unfold BettorAdjustmentCascade.addRow Api.BettorAdjustmentCascade.addRow
  cases r.scope with
  | global => exact ⟨he, rfl, hs, ht, hm⟩
  | sport => exact ⟨he, hg, by rw [hs], ht, hm⟩
  | tournament => exact ⟨he, hg, hs, by rw [ht], hm⟩
  | match' => exact ⟨he, hg, hs, ht, by rw [hm]⟩

theorem Agree.addRows {c : BettorAdjustmentCascade} {c' : Api.BettorAdjustmentCascade}
    (h : Agree c c')
    (rows : List AdjustmentRow) : Agree (rows.foldl BettorAdjustmentCascade.addRow c)
      (rows.foldl Api.BettorAdjustmentCascade.addRow c') := by
  induction rows generalizing c c' with
  | nil => exact h
  | cons r rows ih => exact ih (h.addRow r)

theorem agree_load (rows : List AdjustmentRow) :
    Agree (loadCascade rows) (Api.loadBettorAdjustmentCascade rows) := by
  cases rows with
  | nil => exact ⟨rfl, rfl, rfl, rfl, rfl⟩
  | cons r rows =>
    have hstart : Agree { empty := false } { empty := false } := ⟨rfl, rfl, rfl, rfl, rfl⟩
    exact hstart.addRows (r :: rows)

/-- The gateway resolves the adjustment as the api does. -/
theorem resolveBp_eq (rows : List AdjustmentRow) (matchId tournamentId sportId : Nat) :
    resolveBp (loadCascade rows) matchId tournamentId sportId =
      Api.resolveBettorAdjustmentBp (Api.loadBettorAdjustmentCascade rows) (some matchId)
        (some tournamentId)
        (some sportId) := by
  obtain ⟨he, hg, hs, ht, hm⟩ := agree_load rows
  unfold resolveBp Api.resolveBettorAdjustmentBp
  rw [he, hg, hs, ht, hm]
  rfl

end Oddzilla.Gateway
