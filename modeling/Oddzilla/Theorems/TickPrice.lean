import Oddzilla.Logic.Gateway
import Oddzilla.Odds.Ceiling
import Oddzilla.Odds.Publisher

/-!
# The price of a tick and the price of the catalogue

The gateway cuts an adjusted price at the fair price of the probability in the tick, the
api at that of the probability in the row.  The row keeps its probability through a tick
without one and holds seven decimals of one with more, so the two prices are the same
exactly where that makes no rung of difference.
-/

namespace Oddzilla.Theorems

open Publisher Gateway

/-- The fields of a payload the gateway reads. -/
def payloadFrame (p : OutboundPayload) : OddsFrame :=
  ⟨p.matchId, p.marketId, p.outcomeId, p.publishedOdds, p.probability, some p.sportId,
    some p.tournamentId⟩

def storedOdds (o : Publisher.OutcomeRow) : Option ℚ :=
  o.publishedOdds.map fun u : Int => (u : ℚ) / 10 ^ 4

def storedProbability (o : Publisher.OutcomeRow) : Option ℚ :=
  o.probability.map fun u : Int => (u : ℚ) / 10 ^ 7

/-- The adjustment of the bettor for the outcome of a payload, as the api resolves it. -/
def bettorBp (rows : List AdjustmentRow) (p : OutboundPayload) : Int :=
  Api.resolveBettorAdjustmentBp (Api.loadBettorAdjustmentCascade rows) (some p.matchId) (some p.tournamentId)
    (some p.sportId)

/-- The text is what the api shows for the row, and an adjusted price is not over the fair
price of the row's probability. -/
def ShowsCatalogue (bp : Int) (o : Publisher.OutcomeRow) (shown : OddsText) : Prop :=
  (storedOdds o).map (fun raw => Api.applyBettorAdjustment raw (storedProbability o) bp) = some shown ∧
    ∀ q, storedProbability o = some q → 0 < q → q < 1 → 1001 / 1000 ≤ 1 / q → bp ≠ 0 →
      shown.value ≤ 1 / q

/-- A tick without a probability meets a row whose fair price does not cut the adjusted
price; or the probability of the tick and its seven decimals cut it on the same rung. -/
def CeilingsAgree (bp : Int) (price : ℚ) (tick : Option ℚ) (o : Publisher.OutcomeRow) : Prop :=
  match tick with
  | none => ∀ q, storedProbability o = some q → 0 < q → q < 1 →
      quoteOnLadder (Api.adjustedOdds price none bp) ≤ max (1001 / 1000) (1 / q)
  | some p => quoteOnLadder (Api.adjustedOdds price (some p) bp) =
      quoteOnLadder (Api.adjustedOdds price (some ((numeric 7 p : ℚ) / 10 ^ 7)) bp)

/-- A probability that the column holds as it is cuts both prices alike. -/
theorem ceilingsAgree_of_sevenDecimals {bp : Int} {price : ℚ} {o : Publisher.OutcomeRow} (u : Int) :
    CeilingsAgree bp price (some ((u : ℚ) / 10 ^ 7)) o := by
  unfold CeilingsAgree
  dsimp only
  rw [numeric_units]

/-! ## The adjusted price -/

section

variable {raw q : ℚ} {bp : Int}

theorem ite_floor (x c : ℚ) : (if x < c then c else x) = max c x := by
  by_cases h : x < c
  · rw [if_pos h, max_eq_left h.le]
  · rw [if_neg h, max_eq_right (not_lt.mp h)]

theorem adjustedOdds_none :
    Api.adjustedOdds raw none bp = max (1001 / 1000) (raw * (1 + bp / 10000)) := ite_floor _ _

theorem adjustedOdds_some : Api.adjustedOdds raw (some q) bp = max (1001 / 1000)
    (if 0 < q ∧ q < 1 ∧ 1 / q < raw * (1 + bp / 10000) then 1 / q else raw * (1 + bp / 10000)) :=
      ite_floor _ _

theorem adjustedOdds_skip (h : ¬ (0 < q ∧ q < 1)) :
    Api.adjustedOdds raw (some q) bp = Api.adjustedOdds raw none bp := by
  rw [adjustedOdds_some, if_neg fun hq => h ⟨hq.1, hq.2.1⟩, adjustedOdds_none]

theorem adjustedOdds_cut (h0 : 0 < q) (h1 : q < 1) :
    Api.adjustedOdds raw (some q) bp = min (Api.adjustedOdds raw none bp)
      (max (1001 / 1000) (1 / q)) := by
  rw [adjustedOdds_some, adjustedOdds_none, ← max_min_distrib_left]
  refine congrArg (max (1001 / 1000)) ?_
  by_cases h : 1 / q < raw * (1 + bp / 10000)
  · rw [if_pos ⟨h0, h1, h⟩, min_eq_right h.le]
  · rw [if_neg fun hq => h hq.2.2, min_eq_left (not_lt.mp h)]

/-- The text of a price is the quote of the price. -/
theorem formatOddsTrimNum_value (x : ℚ) : (formatOddsTrimNum x).value = quoteOnLadder x := by
  obtain ⟨u, hu, -, hq⟩ := exists_rung x
  obtain ⟨n, rfl⟩ := Int.eq_ofNat_of_zero_le hu
  unfold formatOddsTrimNum
  have hfloor : ⌊quoteOnLadder x * 10000 + 1 / 10 ^ 6⌋ = (n : ℤ) := by
    rw [hq, Int.floor_eq_iff]
    constructor
    · rw [div_mul_cancel₀ _ (by norm_num : (10000 : ℚ) ≠ 0)]
      linarith
    · rw [div_mul_cancel₀ _ (by norm_num : (10000 : ℚ) ≠ 0)]
      linarith
  rw [hfloor, Int.toNat_natCast, renderTs_eq_renderGo, value_renderGo, hq]
  rfl

theorem formatOddsTrimNum_inj (x y : ℚ) : formatOddsTrimNum x = formatOddsTrimNum y ↔
    quoteOnLadder x = quoteOnLadder y := by
  constructor
  · intro h
    rw [← formatOddsTrimNum_value, h, formatOddsTrimNum_value]
  · intro h
    unfold formatOddsTrimNum
    rw [h]

/-- Rounding on the ladder under a ceiling that is quoted under itself. -/
theorem quote_min_iff {x c : ℚ} (hc : quoteOnLadder c ≤ c) :
    quoteOnLadder x = quoteOnLadder (min x c) ↔ quoteOnLadder x ≤ c := by
  constructor
  · intro h
    rw [h]
    exact (quote_mono (min_le_right x c)).trans hc
  · intro h
    rcases le_total x c with hx | hx
    · rw [min_eq_left hx]
    · rw [min_eq_right hx]
      refine le_antisymm ?_ (quote_mono hx)
      have hmono := quote_mono h
      rwa [quote_idem] at hmono

/-- A ceiling from a probability of the column is quoted under itself. -/
theorem quote_ceiling {u : ℤ} (h0 : 0 < (u : ℚ) / 10 ^ 7) (h1 : (u : ℚ) / 10 ^ 7 < 1) :
    quoteOnLadder (max (1001 / 1000) (1 / ((u : ℚ) / 10 ^ 7))) ≤ max (1001 / 1000)
      (1 / ((u : ℚ) / 10 ^ 7)) := by
  have hu : 0 < u := by
    have h : (0 : ℚ) < u := by
      by_contra hneg
      exact absurd h0 (not_lt.mpr (div_nonpos_of_nonpos_of_nonneg (not_lt.mp hneg) (by norm_num)))
    exact_mod_cast h
  have hu1 : u < 10 ^ 7 := by
    rw [div_lt_one (by norm_num)] at h1
    exact_mod_cast h1
  rw [one_div_div]
  rcases le_total (1001 / 1000 : ℚ) (10 ^ 7 / u) with h | h
  · rw [max_eq_right h]
    exact quote_le_fair hu hu1 le_rfl
  · rw [max_eq_left h]
    have hfloor : quoteOnLadder (((10010 : ℤ) : ℚ) / 10000) = (ladderUnits 10010 : ℤ) / 10000 :=
      quote_nat_units (by decide)
    have hrung : ladderUnits 10010 = 10010 := by decide
    rw [hrung] at hfloor
    norm_num at hfloor
    exact hfloor.le

end

/-! ## A tick -/

section

variable {a : Answers} {db db' : Outcomes} {ev : Publisher.Event} {payload : OutboundPayload} {o : Publisher.OutcomeRow}

/-- A published price is a rung. -/
theorem exists_published {raw : Option ℚ≥0} {bp : Nat} {price : OddsText}
    (h : applyMargin raw bp = some price) :
    ∃ n : Nat, price = renderGo n ∧ ladderUnits n = n := by
  have hformat :
    ∀ v : ℚ, 0 ≤ v → ∃ n : Nat, formatPublishedOdds v = renderGo n ∧ ladderUnits n = n := by
    intro v hv
    have hu : 0 ≤ ladderUnits ⌊v * 10000 + 1 / 10 ^ 6⌋ :=
      ladderUnits_nonneg (Int.floor_nonneg.mpr (by positivity))
    refine ⟨(Publisher.ladderUnits ⌊v * 10000 + 1 / 10 ^ 6⌋).toNat, rfl, ?_⟩
    show ladderUnits ((ladderUnits ⌊v * 10000 + 1 / 10 ^ 6⌋).toNat : ℤ) = ((ladderUnits _).toNat : ℤ)
    rw [Int.toNat_of_nonneg hu, ladderUnits_idem]
  obtain ⟨v, -, rfl⟩ := Option.map_eq_some_iff.mp h
  split
  · exact hformat _ (NNRat.coe_nonneg v)
  · exact hformat _ (div_nonneg (NNRat.coe_nonneg v) (by positivity))

/-- What the last tick leaves in its row and sends. -/
theorem handle_one (h : Handle a db [ev] = some (db', [payload])) (ho : db ev.key = some o) :
    ∃ (n : Nat) (o' : Publisher.OutcomeRow), payload.publishedOdds = renderGo n ∧
      ladderUnits n = n ∧
      payload.probability = ev.probability ∧ db' ev.key = some o' ∧
        o'.publishedOdds = some (n : ℤ) ∧
      o'.probability = (ev.probability.map (numeric 7)).or o.probability := by
  obtain ⟨db₁, hupdate, hsplit⟩ := Option.map_eq_some_iff.mp h
  rw [Prod.mk.injEq] at hsplit
  obtain ⟨rfl, hpayloads⟩ := hsplit
  -- the event was prepared
  obtain ⟨p, hp⟩ : ∃ p, prepare a ev = some p := by
    cases hprep : prepare a ev with
    | none =>
      rw [List.filterMap_cons, hprep] at hpayloads
      cases hpayloads
    | some p => exact ⟨p, rfl⟩
  have hitems : [ev].filterMap (prepare a) = [p] := by
    rw [List.filterMap_cons, hp]
    rfl
  rw [hitems] at hpayloads
  have hpayload : p.payload = payload := List.head_eq_of_cons_eq hpayloads
  have hrows : a.rows [ev] = [p.row] := by
    unfold Answers.rows
    rw [hitems]
    rfl
  rw [hrows] at hupdate
  unfold prepare at hp
  obtain ⟨info, hinfo, hp⟩ := Option.bind_eq_some_iff.mp hp
  obtain ⟨cache, -, hp⟩ := Option.bind_eq_some_iff.mp hp
  obtain ⟨price, hprice, hp⟩ := Option.map_eq_some_iff.mp hp
  obtain ⟨n, hn, hrung⟩ := exists_published hprice
  have hkey : p.row.key = ev.key := by
    rw [← hp]
    show (info.marketId, ev.outcomeId) = ev.key
    rw [a.infos_key _ _ hinfo]
    rfl
  have hdb : db₁ ev.key = some (o.update p.row) := by
    unfold UpdateOutcomesPublishedBulk at hupdate
    simp only [Option.ite_none_right_eq_some, Option.some.injEq] at hupdate
    rw [← hupdate.2, ← hkey, updateAll_of_mem (by simp) (List.mem_singleton_self _), hkey, ho]
    rfl
  have hunits : p.row.units = n := by
    unfold PublishedRow.units
    rw [← hp]
    show numeric 4 price.value = n
    rw [hn, value_renderGo]
    have h := numeric_units 4 n
    norm_num at h ⊢
    exact h
  refine ⟨n, o.update p.row, ?_, hrung, ?_, hdb, ?_, ?_⟩
  · rw [← hpayload, ← hp]
    exact hn
  · rw [← hpayload, ← hp]
  · rw [update_publishedOdds, hunits]
  · rw [update_probability]
    unfold PublishedRow.probabilityUnits
    rw [← hp]

/-- What is sent is the adjustment of the payload's price. -/
theorem sent_eq {s : Server} {c : ClientId} {u : Gateway.UserId} {rows : List AdjustmentRow}
    {slow : Bool} {f : OddsFrame}
    (huser : s.userOf c = some u) (hcache : s.cascadeCache u = some (loadCascade rows))
    (hsent : (s.dispatchOddsTo (.frame (payloadFrame payload)) slow c).2 = some (.frame f)) :
    f.publishedOdds = applyAdjustment payload.publishedOdds payload.probability
      (bettorBp rows payload) := by
  have hbp : bettorBp rows payload =
      resolveBp (loadCascade rows) payload.matchId payload.tournamentId payload.sportId :=
    (resolveBp_eq rows _ _ _).symm
  have hcascade :
    ((s.states c).bind ClientState.userId).bind s.cascadeCache = some (loadCascade rows) := by
    show (s.userOf c).bind s.cascadeCache = _
    rw [huser, Option.bind_some, hcache]
  have hout : outboundFor (some (loadCascade rows)) (.frame (payloadFrame payload)) = .frame f := by
    unfold Server.dispatchOddsTo at hsent
    split at hsent
    · cases hsent
    · dsimp only at hsent
      rw [hcascade] at hsent
      split at hsent
      · exact Option.some.inj hsent
      · cases hsent
  rw [hbp]
  exact publishedOdds_of_outboundFor rfl rfl hout

end

/-! ## Both prices -/

section

variable {n : Nat} {bp : Int}

theorem formatOddsTrimNum_rung (hrung : ladderUnits n = n) :
    formatOddsTrimNum ((n : ℚ) / 10000) = renderGo n := by
  have hquote : quoteOnLadder ((n : ℚ) / 10000) = n / 10000 := by
    have h := quote_nat_units (Int.natCast_nonneg n)
    rwa [hrung, Int.cast_natCast] at h
  unfold formatOddsTrimNum
  have hfloor : ⌊(n : ℚ) / 10000 * 10000 + 1 / 10 ^ 6⌋ = (n : ℤ) := by
    rw [Int.floor_eq_iff]
    constructor
    · push_cast
      linarith
    · push_cast
      linarith
  rw [hquote, hfloor, Int.toNat_natCast, renderTs_eq_renderGo]

theorem applyAdjustment_eq (probability : Option ℚ) (hbp : bp ≠ 0) (hn : n ≠ 0) :
    applyAdjustment (renderGo n) probability bp =
      formatOddsTrimNum (Api.adjustedOdds ((n : ℚ) / 10000) probability bp) := by
  have hpos : ¬ (n : ℚ) / 10000 ≤ 0 := not_le.mpr (by positivity)
  unfold applyAdjustment
  rw [if_neg hbp, value_renderGo]
  dsimp only
  rw [if_neg hpos]
  rfl

theorem applyAdjustment_zero (probability : Option ℚ) (h : bp = 0 ∨ n = 0) :
    applyAdjustment (renderGo n) probability bp = renderGo n := by
  unfold applyAdjustment
  rcases h with rfl | rfl
  · rfl
  · rw [value_renderGo]
    simp

theorem applyBettorAdjustment_eq (probability : Option ℚ) (hbp : bp ≠ 0) (hn : n ≠ 0) :
    Api.applyBettorAdjustment ((n : ℚ) / 10000) probability bp =
      formatOddsTrimNum (Api.adjustedOdds ((n : ℚ) / 10000) probability bp) := by
  have hpos : ¬ (n : ℚ) / 10000 ≤ 0 := not_le.mpr (by positivity)
  unfold Api.applyBettorAdjustment
  rw [if_neg fun h => h.elim hpos hbp]

theorem applyBettorAdjustment_zero (probability : Option ℚ) (hrung : ladderUnits n = n)
    (h : bp = 0 ∨ n = 0) :
    Api.applyBettorAdjustment ((n : ℚ) / 10000) probability bp = renderGo n := by
  have hplain : (n : ℚ) / 10000 ≤ 0 ∨ bp = 0 := by
    rcases h with h | rfl
    · exact Or.inr h
    · left
      norm_num
  unfold Api.applyBettorAdjustment
  rw [if_pos hplain, formatOddsTrimNum_rung hrung]

/-- The two ceilings, and the rung they leave. -/
theorem quote_eq_iff {price : ℚ} {tick : Option ℚ} {o o' : Publisher.OutcomeRow}
    (hstored : o'.probability = (tick.map (numeric 7)).or o.probability) :
    quoteOnLadder (Api.adjustedOdds price tick bp) = quoteOnLadder
      (Api.adjustedOdds price (storedProbability o') bp) ↔
      CeilingsAgree bp price tick o := by
  unfold CeilingsAgree
  cases tick with
  | some p =>
    have h : storedProbability o' = some ((numeric 7 p : ℚ) / 10 ^ 7) := by
      unfold storedProbability
      rw [hstored]
      rfl
    rw [h]
  | none =>
    have hkept : storedProbability o' = storedProbability o := by
      unfold storedProbability
      rw [hstored]
      rfl
    rw [hkept]
    cases hq : storedProbability o with
    | none => exact iff_of_true rfl fun q h => (by cases h)
    | some q =>
      by_cases hcut : 0 < q ∧ q < 1
      · obtain ⟨u, -, rfl⟩ := Option.map_eq_some_iff.mp hq
        rw [adjustedOdds_cut hcut.1 hcut.2, quote_min_iff (quote_ceiling hcut.1 hcut.2)]
        exact ⟨fun h q' hq' _ _ => Option.some.inj hq' ▸ h, fun h => h _ rfl hcut.1 hcut.2⟩
      · rw [adjustedOdds_skip hcut]
        exact iff_of_true rfl fun q' hq' h0 h1 =>
          absurd ⟨Option.some.inj hq' ▸ h0, Option.some.inj hq' ▸ h1⟩ hcut

/-- An adjusted price is not quoted over the fair price of the row. -/
theorem quote_le_stored {price q : ℚ} {o : Publisher.OutcomeRow} (hq : storedProbability o = some q)
    (h0 : 0 < q)
    (h1 : q < 1) (hfair : 1001 / 1000 ≤ 1 / q) :
    quoteOnLadder (Api.adjustedOdds price (storedProbability o) bp) ≤ 1 / q := by
  obtain ⟨u, hu, rfl⟩ := Option.map_eq_some_iff.mp hq
  rw [hq, adjustedOdds_cut h0 h1]
  refine ((quote_mono (min_le_right _ _)).trans (quote_ceiling h0 h1)).trans ?_
  rw [max_eq_right hfair]

end

/-- The last tick shows the bettor the catalogue's price exactly if the bettor has no
adjustment, the price is zero, or the two ceilings agree. -/
theorem tick_price_iff (a : Answers) (db db' : Outcomes) (ev : Publisher.Event)
    (payload : OutboundPayload)
    (o o' : Publisher.OutcomeRow) (rows : List AdjustmentRow) (s : Server) (c : ClientId)
    (u : Gateway.UserId)
    (slow : Bool) (f : OddsFrame) (hlast : Handle a db [ev] = some (db', [payload]))
    (ho : db ev.key = some o)
    (ho' : db' ev.key = some o') (huser : s.userOf c = some u)
    (hcache : s.cascadeCache u = some (loadCascade rows))
    (hsent : (s.dispatchOddsTo (.frame (payloadFrame payload)) slow c).2 = some (.frame f)) :
    ShowsCatalogue (bettorBp rows payload) o' f.publishedOdds ↔
      bettorBp rows payload = 0 ∨ payload.publishedOdds.value = 0 ∨
        CeilingsAgree (bettorBp rows payload) payload.publishedOdds.value ev.probability o := by
  obtain ⟨n, o₁, hprice, hrung, hprob, hdb, hodds, hstored⟩ := handle_one hlast ho
  rw [ho', Option.some_inj] at hdb
  subst hdb
  have hvalue : payload.publishedOdds.value = n / 10000 := by rw [hprice, value_renderGo]
  have hraw : storedOdds o' = some ((n : ℚ) / 10000) := by
    unfold storedOdds
    rw [hodds, Option.map_some, Int.cast_natCast]
    norm_num
  have hzero : (n : ℚ) / 10000 = 0 ↔ n = 0 := by
    rw [div_eq_zero_iff]
    simp
  rw [sent_eq huser hcache hsent, hprob, hvalue, hzero]
  generalize bettorBp rows payload = bp
  unfold ShowsCatalogue
  rw [hraw, Option.map_some, Option.some_inj, hprice]
  by_cases hplain : bp = 0 ∨ n = 0
  · rw [applyAdjustment_zero _ hplain, applyBettorAdjustment_zero _ hrung hplain]
    refine iff_of_true ⟨rfl, fun q _ h0 _ _ hbp => ?_⟩ (hplain.imp_right Or.inl)
    rw [value_renderGo, hplain.resolve_left hbp]
    simpa using h0.le
  · obtain ⟨hbp, hn⟩ := not_or.mp hplain
    rw [applyAdjustment_eq _ hbp hn, applyBettorAdjustment_eq _ hbp hn, formatOddsTrimNum_inj, or_iff_right hbp,
      or_iff_right hn, ← quote_eq_iff hstored]
    constructor
    · rintro ⟨h, -⟩
      exact h.symm
    · intro h
      refine ⟨h.symm, fun q hq h0 h1 hfair _ => ?_⟩
      rw [formatOddsTrimNum_value, h]
      exact quote_le_stored hq h0 h1 hfair

/-! ## A raised price under even odds -/

def raisedBettor : Gateway.UserId := ⟨"u2", by decide⟩

/-- Ten percent more, on everything. -/
def raiseRow : AdjustmentRow := ⟨.global, none, none, none, 1000, by decide⟩

/-- The bettor's socket is open and the cascade is cached. -/
def raisedServer : Server :=
  { Server.start (fun _ => []) with
    states := fun _ => some ⟨.OPEN, some raisedBettor, ["1"], "10.0.0.1", false⟩
    cascadeCache := fun _ => some (loadCascade [raiseRow]) }

def flatAnswers : Answers := .oneMarket

/-- The outcome is even. -/
def evenRow : Publisher.OutcomeRow := ⟨some 18000, some 5000000, 0⟩

def evenDb : Outcomes := fun k => if k = (1, "1") then some evenRow else none

/-- A price of 1.90, with or without the probability. -/
def evenTick (probability : Option ℚ) : Publisher.Event :=
  ⟨0, 1, "1", "map=1", some (19 / 10), probability, true, 1⟩

def evenPayload (probability : Option ℚ) : OutboundPayload :=
  ⟨1, 1, 4, 1, 1, "map=1", "1", formatPublishedOdds ((19 / 10 : ℚ≥0) : ℚ), probability, true, 1⟩

theorem handle_evenTick {probability : Option ℚ} {db' : Outcomes}
    (h : UpdateOutcomesPublishedBulk (flatAnswers.rows [evenTick probability]) evenDb = some db') :
    Handle flatAnswers evenDb [evenTick probability] = some (db', [evenPayload probability]) := by
  unfold Handle
  rw [h]
  rfl

/-- The price of a frame. -/
def shownOdds : Payload → Option OddsText
  | .frame f => some f.publishedOdds
  | .text _ => none

theorem exists_frame {sent : Option Payload} {shown : OddsText}
    (h : sent.bind shownOdds = some shown) :
    ∃ f, sent = some (.frame f) ∧ f.publishedOdds = shown := by
  obtain ⟨payload, rfl, hshown⟩ := Option.bind_eq_some_iff.mp h
  cases payload with
  | frame f => exact ⟨f, rfl, Option.some.inj hshown⟩
  | text t => cases hshown

theorem tick_price_even : ∃ o' f, o'.probability = some 5000000 ∧ f.publishedOdds = ⟨2, [0, 0]⟩ ∧
    ShowsCatalogue (bettorBp [raiseRow] (evenPayload (some (1 / 2)))) o'
      (f : OddsFrame).publishedOdds := by
  obtain ⟨db', hupdate⟩ :
    ∃ db', UpdateOutcomesPublishedBulk (flatAnswers.rows [evenTick (some (1 / 2))]) evenDb =
      some db' := Option.isSome_iff_exists.mp (by decide +kernel)
  have hlast := handle_evenTick hupdate
  have hsends :
    ((raisedServer.dispatchOddsTo (.frame (payloadFrame (evenPayload (some (1 / 2))))) false 0).2).bind
      shownOdds = some ⟨2, [0, 0]⟩ := by decide +kernel
  obtain ⟨f, hsent, hshown⟩ := exists_frame hsends
  obtain ⟨_, o', -, -, -, hrow, -, hprob⟩ := handle_one hlast (o := evenRow) rfl
  have hagree : CeilingsAgree (bettorBp [raiseRow] (evenPayload (some (1 / 2))))
      (evenPayload (some (1 / 2))).publishedOdds.value (some (1 / 2)) evenRow := by
    have hseven : (1 / 2 : ℚ) = ((5000000 : Int) : ℚ) / 10 ^ 7 := by norm_num
    rw [hseven]
    exact ceilingsAgree_of_sevenDecimals _
  have hnumeric : numeric 7 (1 / 2) = 5000000 := by decide +kernel
  refine ⟨o', f, ?_, hshown, ?_⟩
  · rw [hprob]
    show some (numeric 7 (1 / 2)) = _
    rw [hnumeric]
  · exact (tick_price_iff flatAnswers evenDb db' (evenTick (some (1 / 2))) (evenPayload (some (1 / 2))) evenRow o'
      [raiseRow] raisedServer 0 raisedBettor false f hlast rfl hrow rfl rfl hsent).mpr (Or.inr (Or.inr hagree))

/-- Without the probability in the tick the raised price passes the fair one. -/
theorem raised_over_fair :
    ¬ ∀ (a : Answers) (db db' : Outcomes) (ev : Publisher.Event) (payload : OutboundPayload)
    (o o' : Publisher.OutcomeRow) (rows : List AdjustmentRow) (s : Server) (c : ClientId)
    (u : Gateway.UserId)
    (slow : Bool) (f : OddsFrame), Handle a db [ev] = some (db', [payload]) → db ev.key = some o →
      db' ev.key = some o' → s.userOf c = some u → s.cascadeCache u = some (loadCascade rows) →
      (s.dispatchOddsTo (.frame (payloadFrame payload)) slow c).2 = some (.frame f) →
        ShowsCatalogue (bettorBp rows payload) o' f.publishedOdds := by
  intro h
  obtain ⟨db', hupdate⟩ :
    ∃ db', UpdateOutcomesPublishedBulk (flatAnswers.rows [evenTick none]) evenDb = some db' :=
    Option.isSome_iff_exists.mp (by decide +kernel)
  have hlast := handle_evenTick hupdate
  have hsends :
    ((raisedServer.dispatchOddsTo (.frame (payloadFrame (evenPayload none))) false 0).2).bind
      shownOdds = some ⟨2, [0, 9]⟩ := by decide +kernel
  obtain ⟨f, hsent, hshown⟩ := exists_frame hsends
  obtain ⟨_, o', -, -, -, hrow, -, hprob⟩ := handle_one hlast (o := evenRow) rfl
  have hshows :=
    h flatAnswers evenDb db' (evenTick none) (evenPayload none) evenRow o' [raiseRow] raisedServer 0
    raisedBettor false f hlast rfl hrow rfl rfl hsent
  have hhalf : storedProbability o' = some (1 / 2) := by
    unfold storedProbability
    rw [hprob]
    show some (((5000000 : Int) : ℚ) / 10 ^ 7) = _
    norm_num
  have hle := hshows.2 (1 / 2) hhalf (by norm_num) (by norm_num) (by norm_num) (by decide)
  rw [hshown] at hle
  norm_num [OddsText.value, fracValue] at hle

end Oddzilla.Theorems
