import Oddzilla.Api.Pricing
import Oddzilla.Settler.Payout

/-!
# The payout shown at placement and the payout settled

The api rounds the price of a ticket to four decimals before it multiplies the
stake; the settler multiplies the stake by the exact product and floors.  The
two agree where the price has at most four decimals anyway: singles, tiples,
tippots and bet builders.  A combo's product has four decimals for each leg, and
there the rounding shows.
-/

namespace Oddzilla.Theorems

open Decimal

/-- The legs as settlement reads them when all of them have won. -/
def allWon (req : PlaceRequest) : List Selection :=
  req.legs.map fun leg => { oddsAtPlacement := leg.odds, result := some .won }

section

variable {stake q : Int} {x : ℚ}

/-! ## Whole amounts -/

theorem multiplyMicroByOdds_ok (hx : 0 ≤ x) (hs : 0 < stake)
    (h : multiplyMicroByOdds stake x = .ok q) : q = stake * round (x * 10000) / 10000 := by
  unfold multiplyMicroByOdds at h
  rw [if_neg (not_lt.mpr hx)] at h
  cases h
  refine Int.tdiv_eq_ediv_of_nonneg (mul_nonneg hs.le ?_)
  rw [round_eq]
  exact Int.floor_nonneg.mpr (by positivity)

/-- On the four-decimal grid both floors cut the same amount. -/
theorem floorMicro_of_onGrid (hgrid : OnGrid 4 x) (hx : 0 ≤ x) (hs : 0 < stake)
    (h : multiplyMicroByOdds stake x = .ok q) : floorMicro (stake * x) = q := by
  obtain ⟨n, rfl⟩ := hgrid
  have hround : round ((n : ℚ) / 10 ^ 4 * 10000) = n := by
    rw [show (n : ℚ) / 10 ^ 4 * 10000 = n by ring, round_intCast]
  rw [multiplyMicroByOdds_ok hx hs h, hround]
  unfold floorMicro payoutEpsilon
  have hfloor := floor_grid_add (stake * n) 10000 (by norm_num)
    (show (0 : ℚ) ≤ 1 / 10 ^ 9 by norm_num) (by norm_num)
  push_cast at hfloor
  rw [← hfloor]
  congr 1
  ring

/-- Off the grid they differ by less than a micro and the stake times half a
grid step. -/
theorem floorMicro_close (hx : 0 ≤ x) (hs : 0 < stake) (h : multiplyMicroByOdds stake x = .ok q) :
    |((floorMicro (stake * x) : ℤ) : ℚ) - q| < stake / 20000 + 1 + payoutEpsilon := by
  have hq := multiplyMicroByOdds_ok hx hs h
  have hround := abs_sub_round (x * 10000)
  have hsq : (0 : ℚ) < stake := by exact_mod_cast hs
  have hq1 : (q : ℚ) * 10000 ≤ stake * round (x * 10000) := by
    have : q * 10000 ≤ stake * round (x * 10000) := by omega
    exact_mod_cast this
  have hq2 : (stake : ℚ) * round (x * 10000) < q * 10000 + 10000 := by
    have : stake * round (x * 10000) < q * 10000 + 10000 := by omega
    exact_mod_cast this
  have hf1 : ((floorMicro (stake * x) : ℤ) : ℚ) ≤ stake * x + payoutEpsilon := Int.floor_le _
  have hf2 : (stake : ℚ) * x + payoutEpsilon < floorMicro (stake * x) + 1 := Int.lt_floor_add_one _
  rw [abs_le] at hround
  have hr1 : (stake : ℚ) * round (x * 10000) ≤ stake * (x * 10000 + 1 / 2) := by nlinarith
  have hr2 : (stake : ℚ) * (x * 10000 - 1 / 2) ≤ stake * round (x * 10000) := by nlinarith
  have hε : (0 : ℚ) < payoutEpsilon := by norm_num [payoutEpsilon]
  rw [abs_lt]
  constructor
  · linarith
  · linarith

/-! ## Legs that have won -/

theorem allWon_eq (req : PlaceRequest) : allWon req = (legOdds req).map .wonAt := by
  unfold allWon legOdds
  rw [List.map_map]
  rfl

theorem legOdds_pos {req : PlaceRequest} (h : ∀ leg ∈ req.legs, 1 < leg.odds) :
    ∀ o ∈ legOdds req, 0 < o := by
  intro o ho
  obtain ⟨leg, hleg, rfl⟩ := List.mem_map.mp ho
  have := h leg hleg
  linarith

/-! ## The checks of a placement -/

variable {req : PlaceRequest} {r : Int × Option BetMetaJson}

/-- What the checks have established when a placement is priced. -/
structure Checked (req : PlaceRequest) : Prop where
  single : req.betType = .single → req.legs.length = 1
  multi : req.betType ≠ .single → 2 ≤ req.legs.length
  notSystem : req.betType ≠ .system
  odds : ∀ leg ∈ req.legs, 1 < leg.odds

theorem pricePlacement_ok (h : pricePlacement req = .ok r) :
    Checked req ∧ (match req.betType with
      | .tiple => priceTipleTicket req
      | .tippot => priceTippotTicket req
      | .betbuilder => priceBetBuilderTicket req
      | _ => priceOddsTicket req) = .ok r := by
  unfold pricePlacement at h
  obtain ⟨u₁, hshape, h⟩ := bind_eq_ok.mp h
  obtain ⟨u₂, -, h⟩ := bind_eq_ok.mp h
  obtain ⟨u₃, hodds, h⟩ := bind_eq_ok.mp h
  refine ⟨?_, h⟩
  have hlegs : ∀ leg ∈ req.legs, 1 < leg.odds := by
    unfold checkLegOdds at hodds
    split at hodds
    · next hall =>
      intro leg hleg
      exact of_decide_eq_true (List.all_eq_true.mp hall leg hleg)
    · cases hodds
  unfold checkShape at hshape
  split at hshape
  · cases hshape
  next hne =>
  split at hshape
  · cases hshape
  next hsingle =>
  split at hshape
  · cases hshape
  next hmulti =>
  split at hshape
  · cases hshape
  next hsystem =>
  refine ⟨fun ht => ?_, fun ht => ?_, hsystem, hlegs⟩
  · by_contra hc
    exact hsingle ⟨ht, hc⟩
  · by_contra hc
    exact hmulti ⟨ht, hsystem, by omega⟩

/-! ## The products -/

variable {t : Ticket} {p : Int} {betMeta : Option BetMetaJson}

theorem one_le_combiMultiplier (req : PlaceRequest) : 1 ≤ combiMultiplier req := by
  have hboost : 1 ≤ computeCombiBoost (legOdds req) req.combiBoost := by
    unfold computeCombiBoost
    split
    · simp only
      cases hl : (req.combiBoost.tiers.filter fun tier =>
          tier.minLegs ≤ (legOdds req).countP fun o =>
            decide (req.combiBoost.minOdds ≤ o)).getLast? with
      | none => simp
      | some tier => simpa using tier.one_lt.le
    · exact le_refl 1
  unfold combiMultiplier
  split
  · split
    · exact le_refl 1
    · exact hboost
  · exact le_refl 1

/-- A boost with two decimals is read back as it was applied. -/
theorem parseComboBoost_frozen (hgrid : OnGrid 2 (combiMultiplier req)) :
    parseComboBoost (if 1 < combiMultiplier req then
      some (.obj { product := "combo", boostMultiplier := some (toFixed 2 (combiMultiplier req)) })
      else none) = combiMultiplier req := by
  have hone := one_le_combiMultiplier req
  have hfixed : toFixed 2 (combiMultiplier req) = combiMultiplier req := by
    unfold toFixed
    rw [round_onGrid hgrid, mul_div_cancel_right₀ _ (Decimal.pow_pos 2).ne']
  split
  · simp only [parseComboBoost, if_true, hfixed]
    exact if_neg (not_lt.mpr hone)
  · next hle => exact le_antisymm hone (not_lt.mp hle)

theorem single_paid (hc : Checked req) (ht : t.betType = .single) (hreq : req.betType = .single)
    (hstake : t.stakeMicro = req.stakeMicro) (hgrid : ∀ leg ∈ req.legs, OnGrid 4 leg.odds)
    (h : priceOddsTicket req = .ok (p, betMeta)) :
    computePayout t (allWon req) = .ok (p, .betPayout) := by
  obtain ⟨leg, hleg⟩ := List.length_eq_one_iff.mp (hc.single hreq)
  have hmem : leg ∈ req.legs := by
    rw [hleg]
    exact List.mem_singleton_self leg
  have hodds := hc.odds leg hmem
  have hpos : 0 < leg.odds := by linarith
  obtain ⟨q, hq, heq⟩ := bind_eq_ok.mp h
  cases heq
  have hmult : combiMultiplier req = 1 := by
    unfold combiMultiplier
    rw [if_neg (by rw [hreq]; decide)]
  have hprod : (legOdds req).prod * combiMultiplier req = leg.odds := by
    rw [hmult, legOdds, hleg]
    simp
  rw [hprod, ← hstake] at hq
  have hwon : allWon req = [.wonAt leg.odds] := by
    unfold allWon
    rw [hleg]
    rfl
  rw [hwon, computePayout_single_won ht hpos,
    floorMicro_of_onGrid (hgrid leg hmem) hpos.le t.stake_pos hq]

/-- A combo is paid the exact product of its legs and its boost. -/
theorem combo_computed (hc : Checked req) (ht : t.betType = .combo) (hreq : req.betType = .combo)
    (hboost : OnGrid 2 (combiMultiplier req)) (h : priceOddsTicket req = .ok (p, t.betMeta)) :
    computePayout t (allWon req) =
      .ok (floorMicro (t.stakeMicro * ((legOdds req).prod * combiMultiplier req)), .betPayout) := by
  have hlen : 2 ≤ (legOdds req).length := by
    unfold legOdds
    rw [List.length_map]
    exact hc.multi (by rw [hreq]; decide)
  obtain ⟨q, -, heq⟩ := bind_eq_ok.mp h
  have hmeta : t.betMeta = _ := (congrArg Prod.snd (Except.ok.inj heq)).symm
  rw [allWon_eq, computePayout_combo_won ht hlen (legOdds_pos hc.odds), hmeta,
    parseComboBoost_frozen hboost]

theorem tiple_paid (hc : Checked req) (ht : t.betType = .tiple) (hreq : req.betType = .tiple) :
    computePayout t (allWon req) = .ok (t.potentialPayoutMicro, .betPayout) := by
  have hlen := hc.multi (by rw [hreq]; decide)
  unfold computePayout
  rw [ht]
  simp only [tiplePayout]
  rw [if_neg (by unfold allWon; rw [List.length_map]; omega), if_pos]
  unfold allWon
  cases hl : req.legs with
  | nil =>
    rw [hl] at hlen
    exact absurd hlen (by decide)
  | cons leg rest => rfl

theorem betBuilder_paid (hc : Checked req) (ht : t.betType = .betbuilder)
    (hreq : req.betType = .betbuilder) (hstake : t.stakeMicro = req.stakeMicro)
    (h : priceBetBuilderTicket req = .ok (p, t.betMeta)) :
    computePayout t (allWon req) = .ok (p, .betPayout) := by
  have hlen := hc.multi (by rw [hreq]; decide)
  unfold priceBetBuilderTicket at h
  simp only at h
  split at h
  · cases h
  next hodds =>
  obtain ⟨q, hq, heq⟩ := bind_eq_ok.mp h
  have hmeta :
    t.betMeta = some (.obj { product := "betbuilder", oddsX10000 := req.expectedOddsX10000 }) :=
    (congrArg Prod.snd (Except.ok.inj heq)).symm
  have hp : q = p := congrArg Prod.fst (Except.ok.inj heq)
  rw [not_lt] at hodds
  have hpos : (0 : ℚ) < req.expectedOddsX10000 := by linarith
  have hgrid : OnGrid 4 ((req.expectedOddsX10000 : ℚ) / 10000) :=
    ⟨req.expectedOddsX10000, by norm_num⟩
  rw [← hstake] at hq
  have hpaid := floorMicro_of_onGrid hgrid (by positivity) t.stake_pos hq
  have hwon : ∀ s ∈ allWon req, s.result = some .won := by
    intro s hs
    obtain ⟨leg, -, rfl⟩ := List.mem_map.mp hs
    rfl
  have hcount : ∀ f : Selection → Bool, (∀ s, s.result = some .won → f s = false) →
      (allWon req).countP f = 0 := by
    intro f hf
    rw [List.countP_eq_zero]
    intro s hs
    rw [hf s (hwon s hs)]
    exact Bool.false_ne_true
  have hlen' : (allWon req).length = req.legs.length := List.length_map ..
  have hresolved : (allWon req).any (fun s => s.result == none) = false := by
    rw [List.any_eq_false]
    intro s hs
    rw [hwon s hs]
    decide
  have hvoids : (allWon req).countP (fun s => s.result == some .void) = 0 :=
    hcount _ fun s hs => by rw [hs]; rfl
  have hlosses : (allWon req).countP
      (fun s => s.result == some .lost || s.result == some .halfLost) = 0 :=
    hcount _ fun s hs => by rw [hs]; rfl
  have hodds' : ¬ req.expectedOddsX10000 ≤ 0 := by
    rw [not_le]
    exact_mod_cast hpos
  unfold computePayout
  rw [ht]
  simp only [betBuilderPayout, hmeta, ne_eq, not_true_eq_false, if_false, hodds', hresolved, hvoids,
    hlosses, hlen', Bool.false_eq_true]
  rw [if_neg (by omega), if_neg (by omega), if_neg (by omega), if_neg (by omega), hpaid, hp]

theorem floorToDecimals_onGrid (x : ℚ) (decimals : Nat) :
    OnGrid decimals (floorToDecimals x decimals) ∧ 0 ≤ floorToDecimals x decimals := by
  unfold floorToDecimals
  split
  · exact ⟨onGrid_int 0, le_refl 0⟩
  · next hneg =>
    refine ⟨⟨_, rfl⟩, div_nonneg ?_ (by positivity)⟩
    exact_mod_cast Int.floor_nonneg.mpr (mul_nonneg (not_lt.mp hneg) (by positivity))

/-- One tier for each leg, on the four-decimal grid. -/
theorem tierLoop_ok {d : Products.Dialect} {probs : List ℚ} {divisor : ℚ} {left k : Nat}
    {cumulative : ℚ} {tiers : List Products.TippotTier}
    (h : Products.tierLoop d probs divisor left k cumulative = .ok tiers) :
    tiers.length = left ∧ ∀ tier ∈ tiers, OnGrid 4 tier.multiplier ∧ 0 ≤ tier.multiplier := by
  induction left generalizing k cumulative tiers with
  | zero =>
    cases h
    exact ⟨rfl, fun tier hm => by cases hm⟩
  | succ left ih =>
    unfold Products.tierLoop at h
    simp only at h
    split at h
    · cases h
    · obtain ⟨rest, hrest, heq⟩ := bind_eq_ok.mp h
      cases heq
      obtain ⟨hlen, hgrid⟩ := ih hrest
      refine ⟨by rw [List.length_cons, hlen], fun tier hm => ?_⟩
      rcases List.mem_cons.mp hm with rfl | hm
      · exact floorToDecimals_onGrid _ tippotDecimals
      · exact hgrid tier hm

theorem tippot_paid (hc : Checked req) (ht : t.betType = .tippot) (hreq : req.betType = .tippot)
    (hstake : t.stakeMicro = req.stakeMicro) (h : priceTippotTicket req = .ok (p, t.betMeta)) :
    computePayout t (allWon req) = .ok (p, .betPayout) := by
  have hlen := hc.multi (by rw [hreq]; decide)
  obtain ⟨probs, hprobs, h⟩ := bind_eq_ok.mp h
  obtain ⟨quote, hquote, h⟩ := bind_eq_ok.mp h
  obtain ⟨q, hq, heq⟩ := bind_eq_ok.mp h
  obtain ⟨u, -, hquote⟩ := bind_eq_ok.mp hquote
  obtain ⟨rows, hrows, hquote⟩ := bind_eq_ok.mp hquote
  obtain rfl := (Except.ok.inj hquote).symm
  obtain ⟨hcount, hgrid⟩ := tierLoop_ok hrows
  -- the multipliers alone are frozen on the ticket
  obtain ⟨tiers, htiers⟩ : ∃ tiers, tiers = rows.map (·.multiplier) := ⟨_, rfl⟩
  simp only [← htiers] at hq heq
  replace hgrid : ∀ m ∈ tiers, OnGrid 4 m ∧ 0 ≤ m := by
    intro m hm
    rw [htiers] at hm
    obtain ⟨tier, htier, rfl⟩ := List.mem_map.mp hm
    exact hgrid tier htier
  replace hcount : tiers.length = probs.length := by rw [htiers, List.length_map, hcount]
  have hmeta : t.betMeta = some (.obj { product := "tippot", tiers := tiers.map some }) :=
    (congrArg Prod.snd (Except.ok.inj heq)).symm
  have hp : q = p := congrArg Prod.fst (Except.ok.inj heq)
  have hlegs := (mapM_forall₂ (R := fun _ _ => True) (fun _ _ _ => trivial) hprobs).length_eq
  rw [← hlegs] at hcount
  have hne : tiers ≠ [] := by
    intro hnil
    rw [hnil, List.length_nil] at hcount
    omega
  have hlast : tiers.getLast?.getD 0 = tiers.getLast hne := by
    rw [List.getLast?_eq_some_getLast hne]
    rfl
  obtain ⟨hg, hnonneg⟩ := hgrid _ (List.getLast_mem hne)
  rw [hlast, ← hstake] at hq
  have hpaid := floorMicro_of_onGrid hg hnonneg t.stake_pos hq
  have hlen' : (allWon req).length = req.legs.length := List.length_map ..
  have hwins : (allWon req).countP (fun s => isWinningResult s.result) = req.legs.length := by
    rw [← hlen', List.countP_eq_length]
    intro s hs
    obtain ⟨leg, -, rfl⟩ := List.mem_map.mp hs
    rfl
  have hvoids : (allWon req).countP (fun s => s.result == some .void) = 0 := by
    rw [List.countP_eq_zero]
    intro s hs
    obtain ⟨leg, -, rfl⟩ := List.mem_map.mp hs
    exact Bool.false_ne_true
  have htop : ((tiers.map some)[min (req.legs.length - 1) ((tiers.map some).length - 1)]?).join =
      some (tiers.getLast hne) := by
    rw [List.length_map, hcount, min_self, List.getElem?_map, ← hcount,
      ← List.getLast?_eq_getElem?, List.getLast?_eq_some_getLast hne]
    rfl
  have hmapne : tiers.map some ≠ [] := by
    intro hnil
    exact hne (List.map_eq_nil_iff.mp hnil)
  unfold computePayout
  rw [ht]
  simp only [tippotPayout, hmeta, ne_eq, not_true_eq_false, if_false, hmapne, hwins, hvoids, hlen',
    htop]
  rw [if_neg (by omega), if_neg (by omega), max_eq_right hnonneg, hpaid, hp]

end

/-- For every placement the api prices, on leg prices with at most four
decimals: when every leg wins, a single, a tiple, a tippot and a bet builder are
paid exactly the payout shown; a combo whose boost has at most two decimals is
paid within a micro and the stake times half a ten-thousandth of it, and exactly
it when its boosted price has at most four decimals. -/
theorem potential_is_paid (req : PlaceRequest) (t : Ticket)
    (hprice : pricePlacement req = .ok (t.potentialPayoutMicro, t.betMeta))
    (hstake : t.stakeMicro = req.stakeMicro) (htype : t.betType = req.betType)
    (hgrid : ∀ leg ∈ req.legs, OnGrid 4 leg.odds) :
    (req.betType ≠ .combo → computePayout t (allWon req) = .ok (t.potentialPayoutMicro, .betPayout)) ∧
    (req.betType = .combo → OnGrid 2 (combiMultiplier req) →
      ∃ paid : Int, computePayout t (allWon req) = .ok (paid, .betPayout) ∧
        |(paid : ℚ) - t.potentialPayoutMicro| < t.stakeMicro / 20000 + 1 + payoutEpsilon ∧
        (OnGrid 4 ((legOdds req).prod * combiMultiplier req) → paid = t.potentialPayoutMicro)) := by
  obtain ⟨hc, hticket⟩ := pricePlacement_ok hprice
  refine ⟨fun hne => ?_, fun hcombo hboost => ?_⟩
  · cases hreq : req.betType with
    | single =>
      simp only [hreq] at hticket
      exact single_paid hc (htype.trans hreq) hreq hstake hgrid hticket
    | combo => exact absurd hreq hne
    | system => exact absurd hreq hc.notSystem
    | tiple => exact tiple_paid hc (htype.trans hreq) hreq
    | tippot =>
      simp only [hreq] at hticket
      exact tippot_paid hc (htype.trans hreq) hreq hstake hticket
    | betbuilder =>
      simp only [hreq] at hticket
      exact betBuilder_paid hc (htype.trans hreq) hreq hstake hticket
  · simp only [hcombo] at hticket
    have hpaid := combo_computed hc (htype.trans hcombo) hcombo hboost hticket
    obtain ⟨q, hq, heq⟩ := bind_eq_ok.mp hticket
    obtain rfl : q = t.potentialPayoutMicro := congrArg Prod.fst (Except.ok.inj heq)
    rw [← hstake] at hq
    have hpos : 0 ≤ (legOdds req).prod * combiMultiplier req :=
      mul_nonneg (List.prod_pos (legOdds_pos hc.odds)).le (le_trans zero_le_one (one_le_combiMultiplier req))
    exact ⟨_, hpaid, floorMicro_close hpos t.stake_pos hq,
      fun hg => floorMicro_of_onGrid hg hpos t.stake_pos hq⟩

/-! ## Two combos -/

/-- A combo of two legs, with the boost of two decimals that two legs unlock. -/
def comboReq (stake : Int) (odds₁ odds₂ boost : ℚ) (h : 1 < boost) (enabled : Bool) :
    PlaceRequest where
  betType := .combo
  stakeMicro := stake
  legs := [⟨odds₁, none⟩, ⟨odds₂, none⟩]
  productCfg := none
  combiBoost := ⟨enabled, 3 / 2, [⟨2, boost, h⟩]⟩
  boostVisible := true
  expectedOddsX10000 := 0

/-- The ticket that `place()` writes for a priced combo. -/
def comboTicket (stake potential : Int) (betMeta : Option BetMetaJson) (hs : 0 < stake)
    (hp : 0 ≤ potential) : Ticket where
  userId := .ofDigit 1
  currency := "USDC"
  status := .accepted
  betType := .combo
  stakeMicro := stake
  potentialPayoutMicro := potential
  actualPayoutMicro := none
  betMeta := betMeta
  placedAtMs := 0
  stake_pos := hs
  potential_nonneg := hp

/-- 2.00 and 1.50, boosted by 1.03: 309 for 100, shown and paid. -/
theorem potential_is_paid_boosted :
    computePayout (comboTicket 100 309
        (some (.obj { product := "combo", boostMultiplier := some (103 / 100) })) (by decide)
        (by decide))
      (allWon (comboReq 100 2 (3 / 2) (103 / 100) (by norm_num) true)) = .ok (309, .betPayout) := by
  obtain ⟨paid, hpaid, -, hexact⟩ := (potential_is_paid
    (comboReq 100 2 (3 / 2) (103 / 100) (by norm_num) true)
    (comboTicket 100 309 (some (.obj { product := "combo", boostMultiplier := some (103 / 100) }))
      (by decide) (by decide)) (by decide +kernel) rfl rfl (by decide +kernel)).2 rfl
    (by decide +kernel)
  rw [hpaid, hexact (by decide +kernel)]
  rfl

/-- Two legs at 1.0001 and a stake of 300 units: the exact price 1.00020001 is
shown as 1.0002, three micros short of what is paid. -/
theorem combo_shown_short :
    pricePlacement (comboReq 300000000 (10001 / 10000) (10001 / 10000) 2 (by norm_num) false) =
        .ok (300060000, none) ∧
      computePayout (comboTicket 300000000 300060000 none (by decide) (by decide))
        (allWon (comboReq 300000000 (10001 / 10000) (10001 / 10000) 2 (by norm_num) false)) =
          .ok (300060003, .betPayout) := by
  decide +kernel

end Oddzilla.Theorems
