import Oddzilla.Store.Ledger

/-!
# Payout arithmetic

`payout.go` and `computePayout` with real arithmetic taken exactly: odds,
void factors and multipliers are rationals, so the checks for NaN and infinity
have nothing to refuse.  `payoutEpsilon` is the `1e-9` the services add before
they floor.
-/

namespace Oddzilla

def payoutEpsilon : ℚ := 1 / 10 ^ 9

/-- `int64(math.Floor(f + 1e-9))` -/
def floorMicro (f : ℚ) : Int := ⌊f + payoutEpsilon⌋

def effectiveFactor (odds : ℚ) (result : Option OutcomeResult) (voidFactor : Option ℚ) :
    Except Error ℚ :=
  if odds ≤ 0 then .error (.msg "odds")
  else
    let vf := voidFactor.getD 0
    let eff (vf res : ℚ) := (1 - vf) * (res * odds) + vf
    match result with
    | some .won => .ok (eff vf 1)
    | some .lost => .ok (eff vf 0)
    | some .void => .ok (eff 1 0)
    | some .halfWon => .ok (eff (if vf = 0 then 1 / 2 else vf) 1)
    | some .halfLost => .ok (eff (if vf = 0 then 1 / 2 else vf) 0)
    | none => .error (.msg "unknown result: \"\"")

def singlePayout (stakeMicro : Int) (sel : Selection) : Except Error Int := do
  let eff ← effectiveFactor sel.oddsAtPlacement sel.result sel.voidFactor
  return floorMicro (stakeMicro * max 0 eff)

def ledgerTypeFor : Option OutcomeResult → CreditType
  | some .void => .betRefund
  | _ => .betPayout

/-- Absent, malformed, foreign or penalising metadata means no boost. -/
def parseComboBoost : Option BetMetaJson → ℚ
  | some (.obj m) =>
    if m.product = "combo" then
      match m.boostMultiplier with
      | some v => if v < 1 then 1 else v
      | none => 1
    else 1
  | _ => 1

/-- The product of the legs' factors. -/
def comboFactor : List Selection → Except Error ℚ
  | [] => .ok 1
  | sel :: rest => do
    let eff ← effectiveFactor sel.oddsAtPlacement sel.result sel.voidFactor
    let factor ← comboFactor rest
    return eff * factor

def allVoid (sels : List Selection) : Bool := sels.all fun s => s.result == some .void

def comboPayout (stakeMicro : Int) (betMeta : Option BetMetaJson) (sels : List Selection) :
    Except Error (Int × CreditType) :=
  if sels.length < 2 then
    .error (.msg ("combo needs ≥2 selections, got " ++ toString sels.length))
  else do
    let factor ← comboFactor sels
    -- all-void tickets refund the stake whatever the boost
    let boosted := if allVoid sels then max 0 factor else max 0 factor * parseComboBoost betMeta
    return (floorMicro (stakeMicro * boosted), if allVoid sels then .betRefund else .betPayout)

def isWinningResult : Option OutcomeResult → Bool
  | some .won => true
  | some .halfWon => true
  | _ => false

def tiplePayout (stakeMicro potentialPayoutMicro : Int) (sels : List Selection) :
    Except Error (Int × CreditType) :=
  if sels.length < 2 then
    .error (.msg ("tiple needs ≥2 selections, got " ++ toString sels.length))
  else if sels.any fun s => isWinningResult s.result then .ok (potentialPayoutMicro, .betPayout)
  else if allVoid sels then .ok (stakeMicro, .betRefund)
  else .ok (0, .betPayout)

def betBuilderPayout (stakeMicro : Int) (betMeta : Option BetMetaJson) (sels : List Selection) :
    Except Error (Int × CreditType) :=
  match betMeta with
  | none => .error (.msg "betbuilder ticket missing bet_meta")
  | some .malformed => .error (.msg "betbuilder bet_meta unmarshal")
  | some (.obj m) =>
    if m.product ≠ "betbuilder" then
      .error (.msg ("betbuilder bet_meta wrong product: " ++ m.product))
    else if m.oddsX10000 ≤ 0 then
      .error (.msg ("betbuilder bet_meta odds_x10000=" ++ toString m.oddsX10000))
    else if sels.length < 2 then
      .error (.msg ("betbuilder needs ≥2 selections, got " ++ toString sels.length))
    else if sels.any fun s => s.result == none then
      .error (.msg "betbuilder selection unresolved: \"\"")
    else
      let losses := sels.countP fun s => s.result == some .lost || s.result == some .halfLost
      let voids := sels.countP fun s => s.result == some .void
      if voids = sels.length then .ok (stakeMicro, .betRefund)
      else if 0 < losses then .ok (0, .betPayout)
      else if 0 < voids then .ok (stakeMicro, .betRefund)
      else .ok (floorMicro (stakeMicro * ((m.oddsX10000 : ℚ) / 10000)), .betPayout)

def tippotPayout (stakeMicro : Int) (betMeta : Option BetMetaJson) (sels : List Selection) :
    Except Error (Int × CreditType) :=
  match betMeta with
  | none => .error (.msg "tippot ticket missing bet_meta")
  | some .malformed => .error (.msg "tippot bet_meta unmarshal")
  | some (.obj m) =>
    if m.product ≠ "tippot" then .error (.msg ("tippot bet_meta wrong product: " ++ m.product))
    else if m.tiers = [] then .error (.msg "tippot bet_meta has no tiers")
    else
      let wins := sels.countP fun s => isWinningResult s.result
      let voids := sels.countP fun s => s.result == some .void
      if voids = sels.length then .ok (stakeMicro, .betRefund)
      else if wins = 0 then .ok (0, .betPayout)
      else
        -- more wins than tiers are paid at the top tier
        match (m.tiers[min (wins - 1) (m.tiers.length - 1)]?).join with
        | none => .error (.msg ("tippot tier " ++ toString wins ++ " multiplier"))
        | some mult => .ok (floorMicro (stakeMicro * max 0 mult), .betPayout)

def BetType.text : BetType → String
  | .single => "single"
  | .combo => "combo"
  | .system => "system"
  | .tiple => "tiple"
  | .tippot => "tippot"
  | .betbuilder => "betbuilder"

def computePayout (t : Ticket) (sels : List Selection) : Except Error (Int × CreditType) :=
  match t.betType with
  | .single =>
    match sels with
    | [sel] => do
      let payout ← singlePayout t.stakeMicro sel
      return (payout, ledgerTypeFor sel.result)
    | _ => .error (.msg ("single expected exactly 1 selection, got " ++ toString sels.length))
  | .combo => comboPayout t.stakeMicro t.betMeta sels
  | .tiple => tiplePayout t.stakeMicro t.potentialPayoutMicro sels
  | .tippot => tippotPayout t.stakeMicro t.betMeta sels
  | .betbuilder => betBuilderPayout t.stakeMicro t.betMeta sels
  | .system => .error (.msg ("bet_type " ++ BetType.text .system ++ " not supported yet"))

/-! ## Payouts are never negative -/

theorem floorMicro_nonneg {f : ℚ} (h : 0 ≤ f) : 0 ≤ floorMicro f := by
  unfold floorMicro payoutEpsilon
  exact Int.floor_nonneg.mpr (by positivity)

theorem stake_mul_nonneg {stake : Int} (hs : 0 ≤ stake) {x : ℚ} (hx : 0 ≤ x) :
    0 ≤ (stake : ℚ) * x :=
  mul_nonneg (by exact_mod_cast hs) hx

theorem parseComboBoost_one_le (betMeta : Option BetMetaJson) : 1 ≤ parseComboBoost betMeta := by
  unfold parseComboBoost
  split
  · split
    · split
      · split
        · exact le_refl 1
        · next h => exact not_lt.mp h
      · exact le_refl 1
    · exact le_refl 1
  · exact le_refl 1

theorem comboPayout_nonneg {stake : Int} (hs : 0 ≤ stake) {betMeta : Option BetMetaJson}
    {sels : List Selection} {p : Int} {ty : CreditType}
    (h : comboPayout stake betMeta sels = .ok (p, ty)) : 0 ≤ p := by
  unfold comboPayout at h
  split at h
  · cases h
  · obtain ⟨factor, -, h⟩ := bind_eq_ok.mp h
    cases h
    refine floorMicro_nonneg (stake_mul_nonneg hs ?_)
    split
    · exact le_max_left _ _
    · exact mul_nonneg (le_max_left _ _) (le_trans zero_le_one (parseComboBoost_one_le betMeta))

theorem tiplePayout_nonneg {stake potential : Int} (hs : 0 ≤ stake) (hp : 0 ≤ potential)
    {sels : List Selection} {p : Int} {ty : CreditType}
    (h : tiplePayout stake potential sels = .ok (p, ty)) : 0 ≤ p := by
  unfold tiplePayout at h
  split at h
  · cases h
  split at h
  · cases h
    exact hp
  split at h
  · cases h
    exact hs
  · cases h
    exact le_refl _

theorem betBuilderPayout_nonneg {stake : Int} (hs : 0 ≤ stake) {betMeta : Option BetMetaJson}
    {sels : List Selection} {p : Int} {ty : CreditType}
    (h : betBuilderPayout stake betMeta sels = .ok (p, ty)) : 0 ≤ p := by
  unfold betBuilderPayout at h
  split at h
  · cases h
  · cases h
  split at h
  · cases h
  split at h
  · cases h
  next hodds =>
  split at h
  · cases h
  split at h
  · cases h
  simp only at h
  split at h
  · cases h
    exact hs
  split at h
  · cases h
    exact le_refl _
  split at h
  · cases h
    exact hs
  · cases h
    refine floorMicro_nonneg (stake_mul_nonneg hs (div_nonneg ?_ (by norm_num)))
    exact_mod_cast (not_le.mp hodds).le

theorem tippotPayout_nonneg {stake : Int} (hs : 0 ≤ stake) {betMeta : Option BetMetaJson}
    {sels : List Selection} {p : Int} {ty : CreditType}
    (h : tippotPayout stake betMeta sels = .ok (p, ty)) : 0 ≤ p := by
  unfold tippotPayout at h
  split at h
  · cases h
  · cases h
  split at h
  · cases h
  split at h
  · cases h
  simp only at h
  split at h
  · cases h
    exact hs
  split at h
  · cases h
    exact le_refl _
  split at h
  · cases h
  · cases h
    exact floorMicro_nonneg (stake_mul_nonneg hs (le_max_left _ _))

theorem computePayout_nonneg {t : Ticket} {sels : List Selection} {p : Int} {ty : CreditType}
    (h : computePayout t sels = .ok (p, ty)) : 0 ≤ p := by
  have hs := t.stake_pos.le
  unfold computePayout at h
  split at h
  · split at h
    · obtain ⟨payout, hp, h⟩ := bind_eq_ok.mp h
      obtain ⟨eff, -, hp⟩ := bind_eq_ok.mp hp
      cases h
      cases hp
      exact floorMicro_nonneg (stake_mul_nonneg hs (le_max_left _ _))
    · cases h
  · exact comboPayout_nonneg hs h
  · exact tiplePayout_nonneg hs t.potential_nonneg h
  · exact tippotPayout_nonneg hs h
  · exact betBuilderPayout_nonneg hs h
  · cases h

/-! ## Tickets whose legs have all won -/

/-- A leg at this price that has won. -/
def Selection.wonAt (odds : ℚ) : Selection := { oddsAtPlacement := odds, result := some .won }

theorem effectiveFactor_won {o : ℚ} (h : 0 < o) : effectiveFactor o (some .won) none = .ok o := by
  unfold effectiveFactor
  rw [if_neg (not_le.mpr h)]
  simp

theorem comboFactor_won {odds : List ℚ} (h : ∀ o ∈ odds, 0 < o) :
    comboFactor (odds.map .wonAt) = .ok odds.prod := by
  induction odds with
  | nil => rfl
  | cons o rest ih =>
    have ho := h o (List.mem_cons_self ..)
    have hrest := ih fun o' ho' => h o' (List.mem_cons_of_mem _ ho')
    rw [List.map_cons, comboFactor, hrest, List.prod_cons]
    show (effectiveFactor o (some .won) none >>= fun eff => _) = _
    rw [effectiveFactor_won ho]
    rfl

theorem computePayout_single_won {t : Ticket} {o : ℚ} (ht : t.betType = .single) (ho : 0 < o) :
    computePayout t [.wonAt o] = .ok (floorMicro (t.stakeMicro * o), .betPayout) := by
  unfold computePayout
  rw [ht]
  simp only [singlePayout, Selection.wonAt, effectiveFactor_won ho]
  show Except.ok (floorMicro (t.stakeMicro * max 0 o), ledgerTypeFor (some .won)) = _
  rw [max_eq_right ho.le]
  rfl

/-- A combo is paid the exact product of its legs and its boost. -/
theorem computePayout_combo_won {t : Ticket} {odds : List ℚ} (ht : t.betType = .combo)
    (hlen : 2 ≤ odds.length) (h : ∀ o ∈ odds, 0 < o) :
    computePayout t (odds.map .wonAt) =
      .ok (floorMicro (t.stakeMicro * (odds.prod * parseComboBoost t.betMeta)), .betPayout) := by
  have hvoid : allVoid (odds.map .wonAt) = false := by
    cases hl : odds with
    | nil =>
      rw [hl] at hlen
      exact absurd hlen (by decide)
    | cons o rest => rfl
  have hprod : 0 < odds.prod := List.prod_pos h
  unfold computePayout
  rw [ht]
  simp only [comboPayout]
  rw [if_neg (by rw [List.length_map]; omega), comboFactor_won h, hvoid]
  show Except.ok (floorMicro (t.stakeMicro * (max 0 odds.prod * parseComboBoost t.betMeta)), _) = _
  rw [max_eq_right hprod.le]
  rfl

end Oddzilla
