import Oddzilla.BetDelay.Worker
import Oddzilla.Settler.Payout
import Oddzilla.Store.Engine
import Oddzilla.Store.Frame

/-!
# Re-priced tickets

The worker multiplies the bettor's adjusted price of a drifted leg but stores
that price snapped to the quote ladder, and it cuts the product to eight
decimals.  So the payout it writes is the settler's payout on the stored prices
exactly when the difference stays inside the fraction of a micro that the floor
drops: always when the multiplied prices are the stored ones and their product
has at most eight decimals.
-/

namespace Oddzilla.Theorems

open Decimal

/-- The key of a leg in `ticket_selections`. -/
def legKey (id : TicketId) (m : MarketId) (o : OutcomeId) : SelKey := ⟨id, m, o⟩

/-- The loaded selections are the ticket's rows. -/
structure LegRows (db : Db) (id : TicketId) (sels : List DelaySelection) : Prop where
  keys : db.selKeys.filter (fun k => k.ticketId = id) =
    sels.map fun s => legKey id s.marketId s.outcomeId
  nodup : (sels.map fun s => legKey id s.marketId s.outcomeId).Nodup
  odds : ∀ s ∈ sels, (db.sel (legKey id s.marketId s.outcomeId)).oddsAtPlacement = s.oddsAtPlacement

/-- The price a leg has in `ticket_selections` after the update. -/
def storedPrice (c : LegCheck) : ℚ := if c.drifted then c.currentS else c.placed

/-- The price the settler multiplies the stake by when every leg wins. -/
def settledOdds (t : Ticket) (checks : List LegCheck) : ℚ :=
  (checks.map storedPrice).prod * (if t.betType = .combo then parseComboBoost t.betMeta else 1)

/-- The selection once it has won. -/
def graded (s : Selection) : Selection := { s with result := some .won, voidFactor := none }

/-- The stake times the price that is multiplied, cut to eight decimals. -/
def repricedAmount (t : Ticket) (checks : List LegCheck) : ℚ :=
  t.stakeMicro * trunc 8 (repricedOdds t.betMeta checks)

/-- What the amount loses from the price that is multiplied to the price that is
stored. -/
def repriceLoss (t : Ticket) (checks : List LegCheck) : ℚ :=
  repricedAmount t checks - t.stakeMicro * settledOdds t checks

/-- The loss stays inside the fraction of a micro that the floor drops anyway. -/
def WithinMicro (t : Ticket) (checks : List LegCheck) : Prop :=
  repriceLoss t checks - payoutEpsilon ≤ Int.fract (repricedAmount t checks) ∧
    Int.fract (repricedAmount t checks) < 1 + (repriceLoss t checks - payoutEpsilon)

section

variable {db : Db} {id : TicketId} {tol : ℚ} {p : PendingTicket} {adj : BettorAdjustment}
  {sels : List DelaySelection} {checks : List LegCheck} {t : Ticket}

/-! ## The worker's checks -/

/-- A leg that passes: its prices are positive, and it drifts only on a ticket
that may be re-priced. -/
structure LegPassed (p : PendingTicket) (s : DelaySelection) (c : LegCheck) : Prop where
  marketId : c.marketId = s.marketId
  outcomeId : c.outcomeId = s.outcomeId
  placed : c.placed = s.oddsAtPlacement
  placed_pos : 0 < c.placed
  current_pos : 0 < c.current
  currentS_pos : 0 < c.currentS
  currentS_grid : OnGrid 4 c.currentS
  reprice : c.drifted = true → p.canReprice = true

theorem adjustedOddsFloor_le {raw : ℚ} {probability : Option ℚ} {bp : Int} (hbp : bp ≠ 0)
    (hraw : 0 < raw) : adjustedOddsFloor ≤ applyBettorAdjustment raw probability bp := by
  unfold applyBettorAdjustment
  rw [if_neg hbp, if_neg (not_le.mpr hraw)]
  exact le_max_right _ _

theorem ladderUnits_pos {units : Int} (h : 10010 ≤ units) : 0 < ladderUnits units := by
  unfold ladderUnits
  split
  · omega
  · simp only
    split
    · omega
    · split
      · omega
      · split
        · omega
        · split
          · omega
          · omega

/-- An adjusted price never formats to zero, and formats to four decimals. -/
theorem formatOddsTrim_pos {v : ℚ} (h : adjustedOddsFloor ≤ v) :
    0 < formatOddsTrim v ∧ OnGrid 4 (formatOddsTrim v) := by
  have hunits : 10010 ≤ ⌊v * 10000 + 1 / 10 ^ 6⌋ := by
    rw [Int.le_floor]
    unfold adjustedOddsFloor at h
    push_cast
    linarith
  unfold formatOddsTrim
  simp only
  rw [if_neg (by omega)]
  have hpos := ladderUnits_pos hunits
  have : (0 : ℚ) < ladderUnits ⌊v * 10000 + 1 / 10 ^ 6⌋ := by exact_mod_cast hpos
  exact ⟨by positivity, ladderUnits ⌊v * 10000 + 1 / 10 ^ 6⌋, by norm_num⟩

theorem currentPrice_pos {s : DelaySelection} {raw : ℚ} (hraw : 0 < raw) (hgrid : OnGrid 4 raw) :
    0 < (currentPrice adj s raw).1 ∧ 0 < (currentPrice adj s raw).2 ∧
      OnGrid 4 (currentPrice adj s raw).2 := by
  unfold currentPrice
  simp only
  split
  · exact ⟨hraw, hraw, hgrid⟩
  · next hbp =>
    have hfloor := @adjustedOddsFloor_le raw s.probability _ hbp hraw
    have hpos : (0 : ℚ) < adjustedOddsFloor := by norm_num [adjustedOddsFloor]
    exact ⟨lt_of_lt_of_le hpos hfloor, formatOddsTrim_pos hfloor⟩

theorem checkLeg_ok {s : DelaySelection} {c : LegCheck} (h : checkLeg tol p adj s = .ok c) :
    LegPassed p s c := by
  unfold checkLeg at h
  split at h
  · cases h
  split at h
  · cases h
  split at h
  · cases h
  next raw hraw =>
  split at h
  · cases h
  next hpos =>
  rw [not_or, not_le, not_le] at hpos
  obtain ⟨hc, hcs, hgrid⟩ := @currentPrice_pos adj s raw hpos.2 (s.published_grid raw hraw)
  simp only at h
  split at h
  · cases h
  next hdrift =>
  cases h
  refine ⟨rfl, rfl, rfl, hpos.1, hc, hcs, hgrid, fun hd => ?_⟩
  by_contra hc'
  exact hdrift ⟨hd, hc'⟩

theorem evaluate_reprices {payout : Int} {legs : List Db.UpdatedLegOdds}
    (h : evaluate tol p sels adj = .acceptWithUpdatedOdds payout legs) :
    ∃ checks, sels.mapM (checkLeg tol p adj) = .ok checks ∧
      payout = repricedPayout p.stakeMicro (repricedOdds p.betMeta checks) ∧
      legs = updatesOf checks ∧ ∃ c ∈ checks, c.drifted = true := by
  unfold evaluate at h
  split at h
  · cases h
  split at h
  · cases h
  next checks hchecks =>
  split at h
  · cases h
  next hdrift =>
  simp only at h
  split at h
  · cases h
  cases h
  exact ⟨checks, hchecks, rfl, rfl, List.any_eq_true.mp (not_not.mp hdrift)⟩

/-! ## What is written -/

/-- A price that fits the column is stored as it is. -/
theorem castNumeric_onGrid {precision scale : Nat} {x y : ℚ} (hx : OnGrid scale x)
    (h : castNumeric precision scale x = .ok y) : y = x := by
  obtain ⟨n, rfl⟩ := hx
  have hmul : (n : ℚ) / 10 ^ scale * 10 ^ scale = n := div_mul_cancel₀ _ (Decimal.pow_pos scale).ne'
  have hfloor : ⌊(n : ℚ) + 1 / 2⌋ = n := by
    rw [Int.floor_intCast_add]
    norm_num
  have hceil : ⌈(n : ℚ) - 1 / 2⌉ = n := by
    rw [Int.ceil_eq_iff]
    constructor
    · linarith
    · linarith
  unfold castNumeric at h
  simp only [hmul, hfloor, hceil, ite_self] at h
  split at h
  · cases h
    rfl
  · cases h

/-- The rows of the drifted legs are rewritten, and no others. -/
theorem putAll_updateLegOdds {us : List Db.UpdatedLegOdds} {rows : List (List RowVersion)} (d : Db)
    (h : us.mapM (db.updateLegOdds id) = .ok rows)
    (hkeys : ∀ u ∈ us, legKey id u.marketId u.outcomeId ∈ db.selKeys)
    (hnodup : (us.map fun u => legKey id u.marketId u.outcomeId).Nodup) :
    (∀ u ∈ us, ∃ odds, castNumeric 10 4 u.newOdds = .ok odds ∧
      ((d.putAll rows.flatten).sel (legKey id u.marketId u.outcomeId)).oddsAtPlacement = odds) ∧
    (∀ k, k ∉ us.map (fun u => legKey id u.marketId u.outcomeId) →
      (d.putAll rows.flatten).sel k = d.sel k) ∧
    (d.putAll rows.flatten).selKeys = d.selKeys := by
  induction us generalizing d rows with
  | nil =>
    cases h
    exact ⟨fun u hu => (List.not_mem_nil hu).elim, fun k _ => rfl, rfl⟩
  | cons u us ih =>
    rw [List.mapM_cons] at h
    obtain ⟨vs, hvs, h⟩ := bind_eq_ok.mp h
    obtain ⟨rest, hrest, heq⟩ := bind_eq_ok.mp h
    cases heq
    rw [List.map_cons, List.nodup_cons] at hnodup
    obtain ⟨hout, -⟩ | ⟨odds, hodds, rfl⟩ := Db.updateLegOdds_ok hvs
    · exact absurd (hkeys u (List.mem_cons_self ..)) hout
    rw [List.flatten_cons, Db.putAll_append]
    obtain ⟨hin, hother, hsel⟩ := ih
      (d.putAll [.sel ⟨id, u.marketId, u.outcomeId⟩
        { db.sel ⟨id, u.marketId, u.outcomeId⟩ with oddsAtPlacement := odds }]) hrest
      (fun u' hu' => hkeys u' (List.mem_cons_of_mem _ hu')) hnodup.2
    refine ⟨fun u' hu' => ?_, fun k hk => ?_, hsel⟩
    · rcases List.mem_cons.mp hu' with rfl | hu'
      · -- the later updates are about other keys
        refine ⟨odds, hodds, ?_⟩
        rw [hother _ hnodup.1]
        simp [Db.putAll, Db.put, legKey]
      · exact hin u' hu'
    · rw [List.map_cons, List.mem_cons, not_or] at hk
      rw [hother k hk.2]
      exact Function.update_of_ne hk.1 ..

theorem checks_keys (hchecks : sels.mapM (checkLeg tol p adj) = .ok checks) :
    (checks.map fun c => legKey id c.marketId c.outcomeId) =
      sels.map fun s => legKey id s.marketId s.outcomeId := by
  have hall := mapM_forall₂ (fun s c h => @checkLeg_ok tol p adj s c h) hchecks
  clear hchecks
  induction hall with
  | nil => rfl
  | cons hsc _ ih => rw [List.map_cons, List.map_cons, ih, hsc.marketId, hsc.outcomeId]

/-- Only legs that have drifted are in the updates. -/
theorem updatesOf_keys (hnodup : (checks.map fun c => legKey id c.marketId c.outcomeId).Nodup) :
    ((updatesOf checks).map fun u => legKey id u.marketId u.outcomeId).Nodup ∧
      ∀ c ∈ checks, legKey id c.marketId c.outcomeId ∈
        (updatesOf checks).map (fun u => legKey id u.marketId u.outcomeId) → c.drifted = true := by
  have heq : (updatesOf checks).map (fun u => legKey id u.marketId u.outcomeId) =
      (checks.filter (·.drifted)).map fun c => legKey id c.marketId c.outcomeId := by
    unfold updatesOf
    rw [List.map_map]
    rfl
  rw [heq]
  refine ⟨hnodup.sublist (List.Sublist.map _ List.filter_sublist), fun c hc hmem => ?_⟩
  obtain ⟨c', hc', hkey⟩ := List.mem_map.mp hmem
  obtain ⟨hc', hd⟩ := List.mem_filter.mp hc'
  rwa [List.inj_on_of_nodup_map hnodup hc' hc hkey] at hd

/-- The acceptance leaves the ticket's selections at the stored prices and its
row at the new payout. -/
theorem stored_after {currency : Currency} {old payout : Int} {vs : List RowVersion}
    (hrows : LegRows db id sels) (ht : db.tickets id = some t)
    (hchecks : sels.mapM (checkLeg tol p adj) = .ok checks)
    (h : db.acceptWithUpdatedOdds id currency old payout (updatesOf checks) = .ok vs) :
    ((db.putAll vs).selectionsOf id).map graded = (checks.map storedPrice).map .wonAt ∧
      ∃ t', (db.putAll vs).tickets id = some t' ∧ t'.potentialPayoutMicro = payout ∧
        t'.betType = t.betType ∧ t'.stakeMicro = t.stakeMicro ∧ t'.betMeta = t.betMeta := by
  have hkeys := @checks_keys id tol p adj sels checks hchecks
  have hnodup := hrows.nodup
  rw [← hkeys] at hnodup
  obtain ⟨hnodup', hdrifted⟩ := updatesOf_keys hnodup
  have hin : ∀ c ∈ checks, legKey id c.marketId c.outcomeId ∈ db.selKeys := by
    intro c hc
    have hmem := List.mem_map_of_mem (f := fun c => legKey id c.marketId c.outcomeId) hc
    rw [hkeys, ← hrows.keys] at hmem
    exact (List.mem_filter.mp hmem).1
  unfold Db.acceptWithUpdatedOdds at h
  obtain ⟨rows, hmap, h⟩ := bind_eq_ok.mp h
  split at h
  · next hpay =>
    cases h
    rw [Db.updateTicket_some ht, Db.putAll_append, Db.putAll_append]
    obtain ⟨hnew, hold, hselKeys⟩ := putAll_updateLegOdds db hmap (fun u hu => by
      obtain ⟨c, hc, rfl⟩ := List.mem_map.mp hu
      exact hin c (List.mem_filter.mp hc).1) hnodup'
    generalize db.putAll rows.flatten = d at hnew hold hselKeys
    -- the bank row and the ticket row leave the selections alone
    have hbank :
      ∀ e : Db, (e.putAll (db.repriceOpenLiability currency (payout - old))).sel = e.sel ∧
        (e.putAll (db.repriceOpenLiability currency (payout - old))).selKeys = e.selKeys ∧
        (e.putAll (db.repriceOpenLiability currency (payout - old))).tickets = e.tickets := by
      intro e
      unfold Db.repriceOpenLiability
      split
      · exact ⟨rfl, rfl, rfl⟩
      · exact ⟨rfl, rfl, rfl⟩
    obtain ⟨hbsel, hbkeys, hbtickets⟩ := hbank (d.putAll [.ticket id { t with
      status := .accepted
      potentialPayoutMicro := payout
      potential_nonneg := hpay }])
    refine ⟨?_, { t with status := .accepted, potentialPayoutMicro := payout, potential_nonneg := hpay },
      ?_, rfl, rfl, rfl, rfl⟩
    · unfold Db.selectionsOf
      rw [hbsel, hbkeys]
      show (((d.selKeys.filter fun k => k.ticketId = id).map d.sel).map graded) = _
      rw [hselKeys, hrows.keys, ← hkeys, List.map_map, List.map_map, List.map_map]
      refine List.map_congr_left fun c hc => ?_
      show graded (d.sel (legKey id c.marketId c.outcomeId)) = .wonAt (storedPrice c)
      unfold graded storedPrice
      obtain ⟨s, hs, hcheck⟩ := exists_of_mem_mapM hchecks hc
      have hpassed := checkLeg_ok hcheck
      split
      · next hd =>
        obtain ⟨odds, hcast, hodds⟩ := hnew ⟨c.marketId, c.outcomeId, c.currentS⟩
          (List.mem_map.mpr ⟨c, List.mem_filter.mpr ⟨hc, hd⟩, rfl⟩)
        rw [castNumeric_onGrid hpassed.currentS_grid hcast] at hodds
        rw [hodds]
        rfl
      · next hd =>
        rw [hold _ fun hmem => hd (hdrifted c hc hmem), hpassed.marketId, hpassed.outcomeId,
          hrows.odds s hs, hpassed.placed]
        rfl
    · rw [hbtickets]
      exact Function.update_self ..
  · cases h

/-! ## The two amounts -/

theorem prices_pos (hchecks : sels.mapM (checkLeg tol p adj) = .ok checks) :
    (∀ o ∈ checks.map LegCheck.price, 0 < o) ∧ ∀ o ∈ checks.map storedPrice, 0 < o := by
  refine ⟨fun o ho => ?_, fun o ho => ?_⟩
  · obtain ⟨c, hc, rfl⟩ := List.mem_map.mp ho
    obtain ⟨s, -, hcheck⟩ := exists_of_mem_mapM hchecks hc
    have hpassed := checkLeg_ok hcheck
    unfold LegCheck.price
    split
    · exact hpassed.current_pos
    · exact hpassed.placed_pos
  · obtain ⟨c, hc, rfl⟩ := List.mem_map.mp ho
    obtain ⟨s, -, hcheck⟩ := exists_of_mem_mapM hchecks hc
    have hpassed := checkLeg_ok hcheck
    unfold storedPrice
    split
    · exact hpassed.currentS_pos
    · exact hpassed.placed_pos

theorem repricedPayout_eq {stake : Int} {odds : ℚ} (h : 0 ≤ odds) :
    repricedPayout stake odds = ⌊(stake : ℚ) * trunc 8 odds⌋ := by
  unfold repricedPayout trunc
  simp only [if_pos h]
  have hfloor := floor_grid (stake * ⌊odds * 10 ^ 8⌋) (10 ^ 8) (by norm_num)
  push_cast at hfloor
  norm_num only at hfloor ⊢
  rw [← hfloor, mul_div_assoc]

/-- Both services read the same boost: one drops a multiplier below one, the
other does not apply it. -/
theorem max_extractBoostMultiplier (betMeta : Option BetMetaJson) :
    max 1 (extractBoostMultiplier betMeta) = parseComboBoost betMeta := by
  match betMeta with
  | none => exact max_self 1
  | some .malformed => exact max_self 1
  | some (.obj m) =>
    simp only [extractBoostMultiplier, parseComboBoost]
    by_cases hproduct : m.product = "combo"
    · rw [if_pos hproduct, if_pos hproduct]
      cases m.boostMultiplier with
      | none => exact max_self 1
      | some v =>
        show max 1 (if v ≤ 0 then 1 else v) = if v < 1 then 1 else v
        by_cases hv : v < 1
        · rw [if_pos hv, max_eq_left]
          split
          · exact le_refl 1
          · exact hv.le
        · rw [if_neg hv, if_neg (by linarith), max_eq_right (not_lt.mp hv)]
    · rw [if_neg hproduct, if_neg hproduct, max_self]

theorem repricedOdds_boost (betMeta : Option BetMetaJson) (checks : List LegCheck) :
    repricedOdds betMeta checks = (checks.map LegCheck.price).prod * parseComboBoost betMeta := by
  rw [← max_extractBoostMultiplier]
  unfold repricedOdds
  simp only
  split
  · next hboost => rw [max_eq_right hboost.le]
  · next hboost => rw [max_eq_left (not_lt.mp hboost), mul_one]

theorem repricedOdds_nonneg {betMeta : Option BetMetaJson}
    (h : ∀ o ∈ checks.map LegCheck.price, 0 < o) : 0 ≤ repricedOdds betMeta checks := by
  rw [repricedOdds_boost]
  exact mul_nonneg (List.prod_pos h).le (le_trans zero_le_one (parseComboBoost_one_le betMeta))

theorem settled_amount {t' : Ticket} (hpos : ∀ o ∈ checks.map storedPrice, 0 < o)
    (hsingle : t.betType = .single → checks.length = 1)
    (hcombo : t.betType = .combo → 2 ≤ checks.length)
    (htype : t.betType = .single ∨ t.betType = .combo) (hty : t'.betType = t.betType)
    (hstake : t'.stakeMicro = t.stakeMicro) (hmeta : t'.betMeta = t.betMeta) :
    computePayout t' ((checks.map storedPrice).map .wonAt) =
      .ok (floorMicro (t.stakeMicro * settledOdds t checks), .betPayout) := by
  unfold settledOdds
  rcases htype with hs | hc
  · obtain ⟨c, hc⟩ := List.length_eq_one_iff.mp (hsingle hs)
    rw [hc] at hpos ⊢
    rw [if_neg (by rw [hs]; decide)]
    have hpaid := computePayout_single_won (hty.trans hs) (hpos _ (List.mem_singleton_self _))
    rw [hstake] at hpaid
    simpa using hpaid
  · rw [if_pos hc]
    have hpaid := computePayout_combo_won (hty.trans hc)
      (by rw [List.length_map]; exact hcombo hc) hpos
    rwa [hstake, hmeta] at hpaid

theorem floorMicro_eq_iff (t : Ticket) (checks : List LegCheck) :
    floorMicro (t.stakeMicro * settledOdds t checks) = ⌊repricedAmount t checks⌋ ↔
      WithinMicro t checks := by
  have hsub : (t.stakeMicro : ℚ) * settledOdds t checks + payoutEpsilon =
      repricedAmount t checks - (repriceLoss t checks - payoutEpsilon) := by
    unfold repriceLoss
    ring
  unfold floorMicro WithinMicro
  rw [hsub]
  exact floor_sub_eq_floor_iff _

/-- With nothing lost the floors agree: the fraction of the amount is short of
one by more than the nudge. -/
theorem withinMicro_of_exact (hstored : ∀ c ∈ checks, c.drifted = true → c.currentS = c.current)
    (hsingle : t.betType ≠ .combo → parseComboBoost t.betMeta = 1)
    (hgrid : OnGrid 8 (repricedOdds t.betMeta checks)) : WithinMicro t checks := by
  have hprices : checks.map storedPrice = checks.map LegCheck.price := by
    refine List.map_congr_left fun c hc => ?_
    unfold storedPrice LegCheck.price
    split
    · next hd => exact hstored c hc hd
    · rfl
  have hodds : settledOdds t checks = repricedOdds t.betMeta checks := by
    unfold settledOdds
    rw [repricedOdds_boost, hprices]
    split
    · rfl
    · next hne => rw [hsingle hne]
  have hloss : repriceLoss t checks = 0 := by
    unfold repriceLoss repricedAmount
    rw [hodds, trunc_onGrid hgrid, sub_self]
  have hfract : Int.fract (repricedAmount t checks) ≤ 1 - 1 / 10 ^ 8 := by
    obtain ⟨n, hn⟩ := hgrid
    have hle := fract_grid_le (t.stakeMicro * n) (10 ^ 8) (by norm_num)
    unfold repricedAmount
    rw [trunc_onGrid ⟨n, hn⟩, hn, ← mul_div_assoc]
    push_cast at hle
    exact hle
  have hnonneg := Int.fract_nonneg (repricedAmount t checks)
  unfold WithinMicro
  rw [hloss]
  unfold payoutEpsilon
  constructor
  · linarith
  · linarith

end

/-- Whenever the worker accepts a ticket with updated odds, the payout it stores
is the settler's payout on the selections it stores, all of them won, exactly
when the loss from the multiplied to the stored prices stays within the micro.
It does when every re-priced leg is stored at the price that was multiplied and
the boosted product has at most eight decimals. -/
theorem repriced_is_paid (db : Db) (id : TicketId) (t : Ticket) (tol : ℚ) (accepts : Bool)
    (sels : List DelaySelection) (adj : BettorAdjustment) (payout : Int)
    (legs : List Db.UpdatedLegOdds) (vs : List RowVersion) (ht : db.tickets id = some t)
    (hrows : LegRows db id sels) (hsingle : t.betType = .single → sels.length = 1)
    (hcombo : t.betType = .combo → 2 ≤ sels.length)
    (heval : evaluate tol (t.pending accepts) sels adj = .acceptWithUpdatedOdds payout legs)
    (hpending : t.status = .pendingDelay)
    (hwrites : db.processTicket tol accepts id sels adj = .ok vs) :
    ∃ checks t', sels.mapM (checkLeg tol (t.pending accepts) adj) = .ok checks ∧
      (db.putAll vs).tickets id = some t' ∧ t'.potentialPayoutMicro = payout ∧
      (computePayout t' (((db.putAll vs).selectionsOf id).map graded) = .ok (payout, .betPayout) ↔
        WithinMicro t checks) ∧
      ((∀ c ∈ checks, c.drifted = true → c.currentS = c.current) →
        (t.betType ≠ .combo → parseComboBoost t.betMeta = 1) →
        OnGrid 8 (repricedOdds t.betMeta checks) → WithinMicro t checks) := by
  obtain ⟨checks, hchecks, hpayout, rfl, c, hc, hdrift⟩ := evaluate_reprices heval
  unfold Db.processTicket at hwrites
  simp only [ht, hpending, ne_eq, not_true_eq_false, if_false, heval] at hwrites
  obtain ⟨hsels, t', ht', hpot, hty, hstake, hmeta⟩ := stored_after hrows ht hchecks hwrites
  refine ⟨checks, t', hchecks, ht', hpot, ?_, withinMicro_of_exact⟩
  have hlen : checks.length = sels.length :=
    (mapM_forall₂ (R := fun _ _ => True) (fun _ _ _ => trivial) hchecks).length_eq.symm
  rw [← hlen] at hsingle hcombo
  obtain ⟨hprices, hstored⟩ := prices_pos hchecks
  -- a leg has drifted, so the ticket is one that may be re-priced
  have htype : t.betType = .single ∨ t.betType = .combo := by
    obtain ⟨s, -, hcheck⟩ := exists_of_mem_mapM hchecks hc
    have hre := (checkLeg_ok hcheck).reprice hdrift
    unfold PendingTicket.canReprice Ticket.pending at hre
    simp only [Bool.and_eq_true, Bool.or_eq_true, beq_iff_eq] at hre
    exact hre.2
  have hamount : payout = ⌊repricedAmount t checks⌋ := by
    rw [hpayout]
    exact repricedPayout_eq (repricedOdds_nonneg hprices)
  rw [hsels, settled_amount hstored hsingle hcombo htype hty hstake hmeta, ← floorMicro_eq_iff,
    ← hamount]
  constructor
  · intro h
    exact congrArg Prod.fst (Except.ok.inj h)
  · intro h
    rw [h]

/-! ## One single, two cascades -/

/-- A pending single of 1 USDC at 1.80. -/
def delayedSingle : Ticket where
  userId := .ofDigit 1
  currency := "USDC"
  status := .pendingDelay
  betType := .single
  stakeMicro := 1000000
  potentialPayoutMicro := 1800000
  actualPayoutMicro := none
  betMeta := none
  placedAtMs := 0
  stake_pos := by decide
  potential_nonneg := by decide

def delayedDb : Db :=
  { Db.empty with
    tickets := fun id => if id = .ofDigit 7 then some delayedSingle else none
    selKeys := [⟨.ofDigit 7, 1, "1"⟩]
    sel := fun _ => { oddsAtPlacement := 9 / 5 } }

/-- Its leg, now published at 2.00. -/
def delayedLeg : DelaySelection where
  marketId := 1
  outcomeId := "1"
  oddsAtPlacement := 9 / 5
  currentPublished := some 2
  outcomeActive := true
  marketStatus := 1
  matchId := 1
  tournamentId := 1
  sportId := 1
  probability := none
  boostRule := false
  published_grid := fun raw h => by
    cases h
    exact onGrid_int 2

/-- What the worker writes for it, with a tolerance of 5%. -/
def delayedWrites (adj : BettorAdjustment) : List RowVersion :=
  (delayedDb.processTicket (1 / 20) true (.ofDigit 7) [delayedLeg] adj).toOption.getD []

theorem delayedRows : LegRows delayedDb (.ofDigit 7) [delayedLeg] where
  keys := by decide
  nodup := by decide
  odds := fun s hs => by
    cases List.mem_singleton.mp hs
    rfl

/-- Without an adjustment 2 USDC is written and paid. -/
theorem repriced_is_paid_plain :
    ∃ t', (delayedDb.putAll (delayedWrites {})).tickets (.ofDigit 7) = some t' ∧
      computePayout t'
        (((delayedDb.putAll (delayedWrites {})).selectionsOf (.ofDigit 7)).map graded) =
        .ok (t'.potentialPayoutMicro, .betPayout) := by
  have hok : delayedDb.processTicket (1 / 20) true (.ofDigit 7) [delayedLeg] {} =
      .ok (delayedWrites {}) := by
    have hsome :
      (delayedDb.processTicket (1 / 20) true (.ofDigit 7) [delayedLeg] {}).toOption.isSome =
        true := by decide +kernel
    unfold delayedWrites
    cases h : delayedDb.processTicket (1 / 20) true (.ofDigit 7) [delayedLeg] {} with
    | error e =>
      rw [h] at hsome
      cases hsome
    | ok vs => rfl
  obtain ⟨checks, t', hchecks, ht', hpot, hiff, hexact⟩ := repriced_is_paid delayedDb (.ofDigit 7)
    delayedSingle (1 / 20) true [delayedLeg] {} 2000000 [⟨1, "1", 2⟩] (delayedWrites {}) rfl
    delayedRows (fun _ => rfl) (fun h => by cases h) (by decide +kernel) rfl hok
  have hcs : [delayedLeg].mapM (checkLeg (1 / 20) (delayedSingle.pending true) {}) =
      .ok [⟨1, "1", 9 / 5, 2, 2, true⟩] := by decide +kernel
  rw [hcs] at hchecks
  cases hchecks
  refine ⟨t', ht', ?_⟩
  rw [hpot]
  exact hiff.mpr (hexact (by decide) (fun _ => rfl) (by decide +kernel))

/-- With 25 basis points the price 2.005 is multiplied and 2.00 is stored: 2.005
USDC is promised and 2 USDC is paid. -/
theorem repriced_off_ladder :
    evaluate (1 / 20) (delayedSingle.pending true) [delayedLeg] { globalBp := some 25 } =
        .acceptWithUpdatedOdds 2005000 [⟨1, "1", 2⟩] ∧
      ((delayedDb.putAll (delayedWrites { globalBp := some 25 })).tickets (.ofDigit 7)).map
        (fun t' => (t'.potentialPayoutMicro, computePayout t'
          (((delayedDb.putAll (delayedWrites { globalBp := some 25 })).selectionsOf
            (.ofDigit 7)).map graded))) = some (2005000, .ok (2000000, .betPayout)) := by
  decide +kernel

end Oddzilla.Theorems
