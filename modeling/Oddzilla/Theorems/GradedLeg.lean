import Oddzilla.Logic.Handlers
import Oddzilla.Theorems.Reprice

/-!
# What a graded leg pays

An outcome message gives a leg a result and a void factor; the leg keeps them as
a label and a `NUMERIC(4, 3)`.  Read back through the payout functions they mean
what the message said when the factor has three decimals and a full void is
spelled in one of the three ways the label is compared with.
-/

namespace Oddzilla.Theorems

open Decimal (OnGrid)

/-- An outcome message with result 0 or 1, and the price of a leg on it. -/
structure GradedLeg where
  id : OutcomeId
  won : Bool
  text : String
  voidFactor : ℚ
  odds : ℚ
  reads : parseDecimal text.toList = some voidFactor
  void_nonneg : 0 ≤ voidFactor
  void_le : voidFactor ≤ 1
  odds_gt : 1 < odds

namespace GradedLeg

def outcome (g : GradedLeg) : FeedOutcome := ⟨g.id, if g.won then "1" else "0", g.text⟩

/-- The leg once the message has been applied to it. -/
def stored (g : GradedLeg) : Selection :=
  match g.outcome.verdict with
  | .ok (r, vf) => { oddsAtPlacement := g.odds, result := some r, voidFactor := vf }
  | .error _ => { oddsAtPlacement := g.odds }

/-- What a unit on the leg comes to. -/
def factor (g : GradedLeg) : ℚ :=
  g.voidFactor + (1 - g.voidFactor) * ((if g.won then 1 else 0) * g.odds)

def voided (g : GradedLeg) : Bool := g.voidFactor = 1

def wins (g : GradedLeg) : Bool := g.won && !g.voided

/-- The spellings of a full void that the label knows. -/
def fullSpellings : List String := ["1", "1.0", "1.00"]

/-- Three decimals, and a full void in a spelling the label knows. -/
def Plain (g : GradedLeg) : Prop :=
  OnGrid 3 g.voidFactor ∧ (g.voidFactor = 1 → g.text ∈ fullSpellings)

/-! ## The label -/

def label (g : GradedLeg) : OutcomeResult := mapOutcomeResult g.outcome.result g.text

theorem label_eq (g : GradedLeg) : g.label =
    if g.text ∈ fullSpellings then .void
    else if g.won then (if isHalf g.text then .halfWon else .won)
    else if isHalf g.text then .halfLost else .lost := by
  unfold label mapOutcomeResult fullSpellings outcome
  simp only [List.mem_cons, List.not_mem_nil, or_false]
  cases g.won <;> simp

theorem voidFactor_of_full {g : GradedLeg} (h : g.text ∈ fullSpellings) : g.voidFactor = 1 := by
  have hreads := g.reads
  simp only [fullSpellings, List.mem_cons, List.not_mem_nil, or_false] at h
  rcases h with h | h | h <;> rw [h] at hreads
  · exact Option.some.inj (hreads.symm.trans (by decide +kernel))
  · exact Option.some.inj (hreads.symm.trans (by decide +kernel))
  · exact Option.some.inj (hreads.symm.trans (by decide +kernel))

theorem voidFactor_of_half {g : GradedLeg} (h : isHalf g.text = true) : g.voidFactor = 1 / 2 := by
  have hreads := g.reads
  simp only [isHalf, Bool.or_eq_true, decide_eq_true_iff] at h
  rcases h with (h | h) | h <;> rw [h] at hreads
  · exact Option.some.inj (hreads.symm.trans (by decide +kernel))
  · exact Option.some.inj (hreads.symm.trans (by decide +kernel))
  · exact Option.some.inj (hreads.symm.trans (by decide +kernel))

/-- The label is void for a full void in a known spelling and for nothing else. -/
theorem label_void_iff (g : GradedLeg) : g.label = .void ↔ g.text ∈ fullSpellings := by
  rw [label_eq]
  split
  · next h => exact iff_of_true rfl h
  · next h =>
    refine iff_of_false ?_ h
    split <;> split <;> simp

/-- Which label counts as winning. -/
theorem isWinning_label (g : GradedLeg) :
    isWinningResult (some g.label) = (g.won && decide (g.text ∉ fullSpellings)) := by
  rw [label_eq]
  by_cases h : g.text ∈ fullSpellings
  · simp [h, isWinningResult]
  · cases hw : g.won <;> cases hh : isHalf g.text <;> simp [h, isWinningResult]

/-! ## The stored leg -/

/-- The factor as the column keeps it. -/
def kept (g : GradedLeg) : ℚ := ⌊g.voidFactor * 10 ^ 3 + 1 / 2⌋ / 10 ^ 3

theorem kept_onGrid (g : GradedLeg) : OnGrid 3 g.kept := ⟨_, rfl⟩

theorem cast_eq (g : GradedLeg) : castVoidFactor g.text = .ok (some g.kept) := by
  have hne : g.text ≠ "" := by
    intro h
    have hreads := g.reads
    rw [h] at hreads
    cases hreads
  have hlow : (0 : ℤ) ≤ ⌊g.voidFactor * 10 ^ 3 + 1 / 2⌋ :=
    Int.floor_nonneg.mpr (by linarith [g.void_nonneg])
  have hhigh : ⌊g.voidFactor * 10 ^ 3 + 1 / 2⌋ < 1001 := by
    rw [Int.floor_lt]
    norm_num
    linarith [g.void_le]
  unfold castVoidFactor
  rw [if_neg hne, g.reads]
  show (castNumeric 4 3 g.voidFactor).map some = _
  unfold castNumeric
  simp only [if_pos g.void_nonneg]
  rw [if_pos (by omega)]
  rfl

theorem stored_eq (g : GradedLeg) :
    g.stored = { oddsAtPlacement := g.odds, result := some g.label, voidFactor := some g.kept } := by
  have hverdict : g.outcome.verdict = .ok (g.label, some g.kept) := by
    unfold FeedOutcome.verdict Db.outcomeUpdate
    show (castVoidFactor g.text).map _ = _
    rw [cast_eq]
    rfl
  unfold stored
  rw [hverdict]

theorem kept_eq_iff (g : GradedLeg) : g.kept = g.voidFactor ↔ OnGrid 3 g.voidFactor := by
  constructor
  · intro h
    rw [← h]
    exact g.kept_onGrid
  · intro h
    have hcast := g.cast_eq
    have hne : g.text ≠ "" := by
      intro he
      rw [he] at hcast
      cases hcast
    unfold castVoidFactor at hcast
    rw [if_neg hne, g.reads] at hcast
    cases hc : castNumeric 4 3 g.voidFactor with
    | error e =>
      simp only [hc] at hcast
      cases hcast
    | ok y =>
      simp only [hc] at hcast
      cases hcast
      exact castNumeric_onGrid h hc

/-! ## Reading it back -/

/-- What a unit comes to with the factor the column keeps. -/
def keptFactor (g : GradedLeg) : ℚ :=
  if g.text ∈ fullSpellings then 1
  else g.kept + (1 - g.kept) * ((if g.won then 1 else 0) * g.odds)

theorem kept_of_half {g : GradedLeg} (h : isHalf g.text = true) : g.kept = 1 / 2 := by
  have hv := voidFactor_of_half h
  rw [← hv, kept_eq_iff, hv]
  exact ⟨500, by norm_num⟩

theorem effectiveFactor_stored (g : GradedLeg) :
    effectiveFactor g.odds g.stored.result g.stored.voidFactor = .ok g.keptFactor := by
  rw [stored_eq]
  unfold effectiveFactor keptFactor
  rw [if_neg (by linarith [g.odds_gt])]
  simp only [label_eq, Option.getD_some]
  by_cases hfull : g.text ∈ fullSpellings
  · simp [hfull]
  · by_cases hhalf : isHalf g.text = true
    · have hk := kept_of_half hhalf
      cases hw : g.won
      · simp [hfull, hhalf, hk]
      · simp [hfull, hhalf, hk]
        ring
    · cases hw : g.won
      · simp [hfull, hhalf]
      · simp [hfull, hhalf]
        ring

theorem factor_nonneg (g : GradedLeg) : 0 ≤ g.factor := by
  have hv := g.void_nonneg
  have hrest : 0 ≤ 1 - g.voidFactor := by linarith [g.void_le]
  have hodds : 0 ≤ g.odds := by linarith [g.odds_gt]
  unfold factor
  split <;> positivity

/-- The factor read back is the message's when the column has kept it. -/
theorem keptFactor_eq_iff (g : GradedLeg) : g.keptFactor = g.factor ↔ OnGrid 3 g.voidFactor := by
  unfold keptFactor factor
  by_cases hfull : g.text ∈ fullSpellings
  · have hv := voidFactor_of_full hfull
    rw [if_pos hfull, hv]
    exact iff_of_true (by ring) (Decimal.onGrid_int 1)
  · rw [if_neg hfull, ← kept_eq_iff]
    constructor
    · intro h
      cases hw : g.won
      · simpa [hw] using h
      · simp only [hw, if_true, one_mul] at h
        -- the two sides differ by the difference of the factors times `1 - odds`
        have hprod : (g.kept - g.voidFactor) * (1 - g.odds) = 0 := by linarith
        have hodds : 1 - g.odds ≠ 0 := by linarith [g.odds_gt]
        exact sub_eq_zero.mp ((mul_eq_zero.mp hprod).resolve_right hodds)
    · intro h
      rw [h]

end GradedLeg

/-! ## Tickets -/

section

variable (gs : List GradedLeg)

def legsOf : List Selection := gs.map GradedLeg.stored

def factorOf : ℚ := (gs.map GradedLeg.factor).prod

/-- Every product pays the legs as their messages describe them. -/
structure PaidAsGraded : Prop where
  factor : ∀ g ∈ gs, effectiveFactor g.odds g.stored.result g.stored.voidFactor = .ok g.factor
  void : ∀ g ∈ gs, (g.stored.result = some .void ↔ g.voided = true)
  winning : ∀ g ∈ gs, isWinningResult g.stored.result = g.wins
  single : ∀ g ∈ gs, ∀ stake : Int, singlePayout stake g.stored = .ok (floorMicro (stake * g.factor))
  combo : 2 ≤ gs.length → ∀ (stake : Int) betMeta, comboPayout stake betMeta (legsOf gs) =
    .ok (if gs.all GradedLeg.voided then (floorMicro (stake * factorOf gs), .betRefund)
      else (floorMicro (stake * (factorOf gs * parseComboBoost betMeta)), .betPayout))
  tiple : 2 ≤ gs.length → ∀ stake potential, tiplePayout stake potential (legsOf gs) =
    .ok (if gs.any GradedLeg.wins then (potential, .betPayout)
      else if gs.all GradedLeg.voided then (stake, .betRefund)
      else (0, .betPayout))
  tippot : ∀ (stake : Int) (m : BetMeta), m.product = "tippot" → m.tiers ≠ [] →
    tippotPayout stake (some (.obj m)) (legsOf gs) =
      if gs.all GradedLeg.voided then .ok (stake, .betRefund)
      else if gs.countP GradedLeg.wins = 0 then .ok (0, .betPayout)
      else match (m.tiers[min (gs.countP GradedLeg.wins - 1) (m.tiers.length - 1)]?).join with
        | none => .error (.msg ("tippot tier " ++ toString (gs.countP GradedLeg.wins) ++
            " multiplier"))
        | some mult => .ok (floorMicro (stake * max 0 mult), .betPayout)

end

variable {gs : List GradedLeg}

theorem GradedLeg.Plain.factor {g : GradedLeg} (h : g.Plain) :
    effectiveFactor g.odds g.stored.result g.stored.voidFactor = .ok g.factor := by
  rw [g.effectiveFactor_stored, g.keptFactor_eq_iff.mpr h.1]

theorem GradedLeg.Plain.full_iff {g : GradedLeg} (h : g.Plain) :
    g.text ∈ fullSpellings ↔ g.voided = true := by
  unfold GradedLeg.voided
  rw [decide_eq_true_iff]
  exact ⟨voidFactor_of_full, h.2⟩

theorem GradedLeg.Plain.void {g : GradedLeg} (h : g.Plain) :
    g.stored.result = some .void ↔ g.voided = true := by
  rw [g.stored_eq, Option.some.injEq, g.label_void_iff, h.full_iff]

theorem GradedLeg.Plain.winning {g : GradedLeg} (h : g.Plain) :
    isWinningResult g.stored.result = g.wins := by
  rw [g.stored_eq]
  show isWinningResult (some g.label) = _
  rw [g.isWinning_label, GradedLeg.wins]
  simp only [h.full_iff, Bool.not_eq_true, Bool.decide_eq_false]

theorem allVoid_legsOf (h : ∀ g ∈ gs, g.Plain) : allVoid (legsOf gs) = gs.all GradedLeg.voided := by
  rw [Bool.eq_iff_iff]
  unfold allVoid legsOf
  rw [List.all_map, List.all_eq_true, List.all_eq_true]
  refine forall₂_congr fun g hg => ?_
  rw [← (h g hg).void]
  exact beq_iff_eq

theorem anyWinning_legsOf (h : ∀ g ∈ gs, g.Plain) :
    ((legsOf gs).any fun s => isWinningResult s.result) = gs.any GradedLeg.wins := by
  rw [Bool.eq_iff_iff]
  unfold legsOf
  rw [List.any_map, List.any_eq_true, List.any_eq_true]
  refine exists_congr fun g => and_congr_right fun hg => ?_
  rw [← (h g hg).winning]
  rfl

theorem countWinning_legsOf (h : ∀ g ∈ gs, g.Plain) :
    ((legsOf gs).countP fun s => isWinningResult s.result) = gs.countP GradedLeg.wins := by
  unfold legsOf
  rw [List.countP_map]
  refine List.countP_congr fun g hg => ?_
  rw [← (h g hg).winning]
  rfl

theorem countVoid_legsOf (h : ∀ g ∈ gs, g.Plain) :
    (((legsOf gs).countP fun s => s.result == some .void) = (legsOf gs).length) ↔
      gs.all GradedLeg.voided = true := by
  rw [← allVoid_legsOf h, allVoid, List.countP_eq_length, List.all_eq_true]

theorem comboFactor_legsOf (h : ∀ g ∈ gs, g.Plain) : comboFactor (legsOf gs) = .ok
    (factorOf gs) := by
  induction gs with
  | nil => rfl
  | cons g rest ih =>
    have hg := (h g (List.mem_cons_self ..)).factor
    have hrest := ih fun g' hg' => h g' (List.mem_cons_of_mem _ hg')
    have hodds : g.stored.oddsAtPlacement = g.odds := by rw [g.stored_eq]
    show (effectiveFactor g.stored.oddsAtPlacement g.stored.result g.stored.voidFactor >>=
      fun eff => comboFactor (legsOf rest) >>= fun factor => pure (eff * factor)) = _
    rw [hodds, hg, hrest]
    rfl

theorem factorOf_nonneg (gs : List GradedLeg) : 0 ≤ factorOf gs := by
  apply List.prod_nonneg
  intro x hx
  obtain ⟨g, -, rfl⟩ := List.mem_map.mp hx
  exact g.factor_nonneg

theorem singlePayout_stored {g : GradedLeg} (h : g.Plain) (stake : Int) :
    singlePayout stake g.stored = .ok (floorMicro (stake * g.factor)) := by
  have hodds : g.stored.oddsAtPlacement = g.odds := by rw [g.stored_eq]
  unfold singlePayout
  rw [hodds, h.factor]
  show Except.ok (floorMicro (stake * max 0 g.factor)) = _
  rw [max_eq_right g.factor_nonneg]

theorem comboPayout_legsOf (h : ∀ g ∈ gs, g.Plain) (hlen : 2 ≤ gs.length) (stake : Int)
    (betMeta : Option BetMetaJson) : comboPayout stake betMeta (legsOf gs) =
      .ok (if gs.all GradedLeg.voided then (floorMicro (stake * factorOf gs), .betRefund)
        else (floorMicro (stake * (factorOf gs * parseComboBoost betMeta)), .betPayout)) := by
  have hlegs : ¬ (legsOf gs).length < 2 := by
    unfold legsOf
    rw [List.length_map]
    omega
  unfold comboPayout
  rw [if_neg hlegs, comboFactor_legsOf h, allVoid_legsOf h]
  show Except.ok _ = _
  rw [max_eq_right (factorOf_nonneg gs)]
  split <;> rfl

theorem tiplePayout_legsOf (h : ∀ g ∈ gs, g.Plain) (hlen : 2 ≤ gs.length) (stake potential : Int) :
    tiplePayout stake potential (legsOf gs) =
      .ok (if gs.any GradedLeg.wins then (potential, .betPayout)
        else if gs.all GradedLeg.voided then (stake, .betRefund)
        else (0, .betPayout)) := by
  have hlegs : ¬ (legsOf gs).length < 2 := by
    unfold legsOf
    rw [List.length_map]
    omega
  unfold tiplePayout
  rw [if_neg hlegs, anyWinning_legsOf h, allVoid_legsOf h]
  split
  · rfl
  · split <;> rfl

/-- The products pay a ticket as its messages say exactly when each void factor
has three decimals and each full void is spelled 1, 1.0 or 1.00. -/
theorem paid_as_graded_iff (gs : List GradedLeg) : PaidAsGraded gs ↔ ∀ g ∈ gs, g.Plain := by
  constructor
  · intro h g hg
    have hfactor := h.factor g hg
    rw [g.effectiveFactor_stored] at hfactor
    refine ⟨g.keptFactor_eq_iff.mp (Except.ok.inj hfactor), fun hv => ?_⟩
    have hvoid := (h.void g hg).mpr (decide_eq_true hv)
    rwa [g.stored_eq, Option.some.injEq, g.label_void_iff] at hvoid
  · intro h
    refine ⟨fun g hg => (h g hg).factor, fun g hg => (h g hg).void, fun g hg => (h g hg).winning,
      fun g hg => singlePayout_stored (h g hg), comboPayout_legsOf h, tiplePayout_legsOf h, ?_⟩
    intro stake m hproduct htiers
    have hwins := countWinning_legsOf h
    show (if m.product ≠ "tippot" then _ else _) = _
    refine (if_neg (not_not.mpr hproduct)).trans ((if_neg htiers).trans ?_)
    refine if_congr (countVoid_legsOf h) rfl ?_
    generalize gs.countP GradedLeg.wins = wins at hwins ⊢
    subst hwins
    rfl

/-- A full void with three decimals, on a leg that has won. -/
def voidedTo3 (id : OutcomeId) : GradedLeg :=
  ⟨id, true, "1.000", 1, 2, by decide +kernel, by norm_num, by norm_num, by norm_num⟩

/-- A Tiple of two such legs is paid as a winner and not refunded. -/
theorem full_void_won :
    tiplePayout 1000000 4000000 (legsOf [voidedTo3 "1", voidedTo3 "2"]) =
      .ok (4000000, .betPayout) ∧
    ¬ PaidAsGraded [voidedTo3 "1", voidedTo3 "2"] := by
  have hpaid : tiplePayout 1000000 4000000 (legsOf [voidedTo3 "1", voidedTo3 "2"]) =
      .ok (4000000, .betPayout) := by decide +kernel
  refine ⟨hpaid, fun h => ?_⟩
  have hrefund := h.tiple (le_refl 2) 1000000 4000000
  rw [hpaid] at hrefund
  revert hrefund
  decide

end Oddzilla.Theorems
