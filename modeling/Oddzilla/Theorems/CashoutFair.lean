import Oddzilla.Api.Cashout
import Oddzilla.Theorems.PotentialPayout

/-!
# Cashouts against settlement

`compute` prices a leg by its result alone and rounds the price of a ticket to four decimals;
settlement takes the void factor that is stored with the result, multiplies exactly and adds
the Combi Boost.  The offer stays within the rounding of what settlement can still pay.
-/

namespace Oddzilla.Cashout

open Decimal Theorems

variable {r : AcceptRequest} {t : Ticket} {legs : List LegRow} {l : LegRow} {s : Selection}

/-! ## Legs -/

/-- What a leg contributes when its open part is won. -/
def cashFactor (s : Selection) : ℚ :=
  match s.result with
  | some .void => 1
  | some .lost => 0
  | some .halfWon => 1 + (s.oddsAtPlacement - 1) * (1 / 2)
  | some .halfLost => 1 / 2
  | _ => s.oddsAtPlacement

/-- The product of what the legs contribute. -/
def ticketFactor (sels : List Selection) : ℚ := (sels.map cashFactor).prod

/-- The void factor is the one that the result stands for. -/
def PlainFactor (s : Selection) : Prop :=
  match s.result with
  | some .void => True
  | some .halfWon => s.voidFactor.getD 0 = 0 ∨ s.voidFactor.getD 0 = 1 / 2
  | some .halfLost => s.voidFactor.getD 0 = 0 ∨ s.voidFactor.getD 0 = 1 / 2
  | _ => s.voidFactor.getD 0 = 0

/-- Settlement takes a leg with a plain void factor for what its result stands for. -/
theorem effectiveFactor_plain (hodds : 0 < s.oddsAtPlacement) (hres : s.result ≠ none)
    (hplain : PlainFactor s) :
    effectiveFactor s.oddsAtPlacement s.result s.voidFactor = .ok (cashFactor s) := by
  unfold effectiveFactor
  rw [if_neg (not_le.mpr hodds)]
  unfold PlainFactor at hplain
  unfold cashFactor
  cases hs : s.result with
  | none => exact absurd hs hres
  | some result =>
    rw [hs] at hplain
    cases result with
    | won => simp only [hplain]; norm_num
    | lost => simp only [hplain]; norm_num
    | void => norm_num
    | halfWon =>
      rcases hplain with h | h
      · simp only [h, if_true]
        exact congrArg Except.ok (by ring)
      · simp only [h]
        norm_num
        ring
    | halfLost =>
      rcases hplain with h | h
      · simp only [h, if_true]
        norm_num
      · simp only [h]
        norm_num

theorem cashFactor_nonneg (hodds : 0 < s.oddsAtPlacement) : 0 ≤ cashFactor s := by
  unfold cashFactor
  split
  · exact zero_le_one
  · exact le_refl 0
  · linarith
  · norm_num
  · exact hodds.le

/-- The text of a stored void factor has three decimals. -/
theorem numericText_ne (x : ℚ) : numericText x ≠ "1" ∧ numericText x ≠ "1.0" := by
  have hlength : 5 ≤ (numericText x).length := by
    have hpos : ∀ n : Nat, 1 ≤ (toString n).length := fun n => Nat.length_repr_pos
    unfold numericText
    simp only [String.length_append]
    have h1 := hpos (⌊x * 1000⌋.toNat / 1000)
    have h2 := hpos (⌊x * 1000⌋.toNat / 100 % 10)
    have h3 := hpos (⌊x * 1000⌋.toNat / 10 % 10)
    have h4 := hpos (⌊x * 1000⌋.toNat % 10)
    have hdot : ".".length = 1 := rfl
    omega
  constructor <;> intro h <;> rw [h] at hlength <;> exact absurd hlength (by decide)

theorem leg_voidFactor (r : AcceptRequest) (l : LegRow) :
    ¬ ((r.leg l).voidFactor = some "1" ∨ (r.leg l).voidFactor = some "1.0") := by
  change ¬ (l.sel.voidFactor.map numericText = some "1" ∨
    l.sel.voidFactor.map numericText = some "1.0")
  cases l.sel.voidFactor with
  | none => simp
  | some x =>
    have hne := numericText_ne x
    simp [hne.1, hne.2]

/-! ## The loop over the legs -/

theorem walkLegs_lost {ls : List LegInput} {o p : ℚ} (h : l.sel.result = some .lost) :
    walkLegs (r.leg l :: ls) o p = .ok (.inl (blank .legLost o p)) := by
  unfold walkLegs
  exact if_pos h

/-- A leg with a result contributes its factor. -/
theorem walkLegs_graded {ls : List LegInput} {o p : ℚ} (hodds : 0 < l.sel.oddsAtPlacement)
    (hres : l.sel.result ≠ none) (hlost : l.sel.result ≠ some .lost) :
    walkLegs (r.leg l :: ls) o p = walkLegs ls (o * cashFactor l.sel) p := by
  have hparse : parseFiniteFloat l.sel.oddsAtPlacement = .ok l.sel.oddsAtPlacement :=
    if_neg (not_le.mpr hodds)
  have htext := leg_voidFactor r l
  have hresult : (r.leg l).result = l.sel.result := rfl
  have hprice : (r.leg l).oddsAtPlacement = l.sel.oddsAtPlacement := rfl
  unfold cashFactor
  rw [walkLegs, hresult, hprice, if_neg hlost]
  cases hs : l.sel.result with
  | none => exact absurd hs hres
  | some result =>
    cases result with
    | lost => exact absurd hs hlost
    | void =>
      rw [if_pos (.inl rfl), mul_one]
    | won =>
      rw [if_neg (by simpa using htext)]
      simp only [hparse]
      rfl
    | halfWon =>
      rw [if_neg (by simpa using htext)]
      simp only [hparse]
      rfl
    | halfLost =>
      rw [if_neg (by simpa using htext)]

theorem legProbability_pos {leg : LegInput} {p : ℚ} (h : legProbability leg = .ok (some p)) :
    0 < p := by
  have hguard : ∀ q : Option ℚ, (q.bind fun q =>
      if 0 < q ∧ q < 10001 / 10000 then some q
      else if 1 < q ∧ q ≤ 10001 / 10000 then some 1 else none) = some p → 0 < p := by
    intro q hq
    obtain ⟨q, -, hq⟩ := Option.bind_eq_some_iff.mp hq
    split at hq
    · next hpos => exact Option.some.inj hq ▸ hpos.1
    · split at hq
      · exact Option.some.inj hq ▸ one_pos
      · cases hq
  unfold legProbability at h
  simp only at h
  split at h
  · exact hguard _ (Except.ok.inj h)
  · obtain ⟨q, -, h⟩ := bind_eq_ok.mp h
    exact hguard _ (Except.ok.inj h)
  · exact hguard _ (Except.ok.inj h)

/-- A leg without a result ends the loop, or contributes its price and its probability. -/
theorem walkLegs_open {ls : List LegInput} {o p : ℚ} {w : ComputeOutput ⊕ ℚ × ℚ}
    (hres : l.sel.result = none) (h : walkLegs (r.leg l :: ls) o p = .ok w) :
    (∃ reason o' p', w = .inl (blank reason o' p')) ∨
      ∃ q, legProbability (r.leg l) = .ok (some q) ∧
        walkLegs ls (o * cashFactor l.sel) (p * q) = .ok w := by
  have hnone : (r.leg l).result = none := hres
  have htext : ¬ ((r.leg l).result = some .void ∨ (r.leg l).voidFactor = some "1" ∨
      (r.leg l).voidFactor = some "1.0") := by
    rw [hnone]
    simpa using leg_voidFactor r l
  unfold cashFactor
  rw [hres]
  rw [walkLegs, if_neg (by rw [hnone]; simp), if_neg htext, hnone] at h
  simp only at h
  split at h
  · cases h
    exact .inl ⟨_, _, _, rfl⟩
  · obtain ⟨odds, hodds, h⟩ := bind_eq_ok.mp h
    obtain ⟨q, hq, h⟩ := bind_eq_ok.mp h
    have hprice : odds = l.sel.oddsAtPlacement := by
      unfold parseFiniteFloat at hodds
      split at hodds
      · cases hodds
      · exact (Except.ok.inj hodds).symm
    cases q with
    | none =>
      cases h
      exact .inl ⟨_, _, _, rfl⟩
    | some q =>
      exact .inr ⟨q, hq, hprice ▸ h⟩

/-- The loop over legs that all have a result. -/
theorem walkLegs_all_graded {o p : ℚ} (hodds : ∀ l ∈ legs, 0 < l.sel.oddsAtPlacement)
    (hres : ∀ l ∈ legs, l.sel.result ≠ none) :
    (∃ o' p', walkLegs (legs.map r.leg) o p = .ok (.inl (blank .legLost o' p')) ∧
      ticketFactor (legs.map (·.sel)) = 0) ∨
    walkLegs (legs.map r.leg) o p = .ok (.inr (o * ticketFactor (legs.map (·.sel)), p)) ∧
      ∀ l ∈ legs, l.sel.result ≠ some .lost := by
  induction legs generalizing o p with
  | nil =>
    refine .inr ⟨?_, fun l hl => absurd hl List.not_mem_nil⟩
    simp [walkLegs, ticketFactor]
  | cons l legs ih =>
    obtain ⟨hodds0, hodds⟩ := List.forall_mem_cons.mp hodds
    obtain ⟨hres0, hres⟩ := List.forall_mem_cons.mp hres
    have hprod : ticketFactor ((l :: legs).map (·.sel)) =
        cashFactor l.sel * ticketFactor (legs.map (·.sel)) := List.prod_cons
    rw [List.map_cons (f := r.leg), hprod]
    by_cases hlost : l.sel.result = some .lost
    · refine .inl ⟨o, p, walkLegs_lost hlost, ?_⟩
      unfold cashFactor
      rw [hlost]
      exact zero_mul _
    · rw [walkLegs_graded hodds0 hres0 hlost]
      rcases ih hodds hres with ⟨o', p', hwalk, hzero⟩ | ⟨hwalk, hall⟩
      · exact .inl ⟨o', p', hwalk, by rw [hzero, mul_zero]⟩
      · rw [hwalk, mul_assoc]
        exact .inr ⟨rfl, List.forall_mem_cons.mpr ⟨hlost, hall⟩⟩

/-- The loop over any legs: it ends with a reason, or with the product and a probability. -/
theorem walkLegs_bounds {o p : ℚ} {w : ComputeOutput ⊕ ℚ × ℚ}
    (hodds : ∀ l ∈ legs, 0 < l.sel.oddsAtPlacement)
    (hprob : ∀ l ∈ legs, ∀ q, legProbability (r.leg l) = .ok (some q) → q ≤ 1)
    (h : walkLegs (legs.map r.leg) o p = .ok w) :
    (∃ reason o' p', w = .inl (blank reason o' p')) ∨
      ∃ q, 0 < q ∧ q ≤ 1 ∧ w = .inr (o * ticketFactor (legs.map (·.sel)), p * q) := by
  induction legs generalizing o p with
  | nil =>
    refine .inr ⟨1, one_pos, le_refl 1, ?_⟩
    rw [List.map_nil, walkLegs] at h
    simp [← Except.ok.inj h, ticketFactor]
  | cons l legs ih =>
    obtain ⟨hodds0, hodds⟩ := List.forall_mem_cons.mp hodds
    obtain ⟨hprob0, hprob⟩ := List.forall_mem_cons.mp hprob
    have hprod : ticketFactor ((l :: legs).map (·.sel)) =
        cashFactor l.sel * ticketFactor (legs.map (·.sel)) := List.prod_cons
    rw [hprod, ← mul_assoc]
    rw [List.map_cons] at h
    by_cases hres : l.sel.result = none
    · rcases walkLegs_open hres h with hblank | ⟨q, hq, h⟩
      · exact .inl hblank
      · refine (ih hodds hprob h).imp_right ?_
        rintro ⟨q', hpos, hle, rfl⟩
        have hqpos := legProbability_pos hq
        refine ⟨q * q', mul_pos hqpos hpos, mul_le_one₀ (hprob0 q hq) hpos.le hle, ?_⟩
        rw [mul_assoc p]
    · by_cases hlost : l.sel.result = some .lost
      · rw [walkLegs_lost hlost] at h
        exact .inl ⟨_, _, _, (Except.ok.inj h).symm⟩
      · rw [walkLegs_graded hodds0 hres hlost] at h
        exact ih hodds hprob h

/-! ## The deduction -/

/-- Every deduction of the ladder divides by at least 1; the admin's form checks it. -/
def Config.Deducts (c : Config) : Prop :=
  ∀ ladder, c.deductionLadder = some ladder → ∀ step ∈ ladder, 1 ≤ step.deduction

theorem one_le_interpolate {ladder : List LadderStep} {v x : ℚ}
    (hladder : ∀ step ∈ ladder, 1 ≤ step.deduction) (h : interpolate v ladder = some x) :
    1 ≤ x := by
  induction ladder with
  | nil => cases h
  | cons lo rest ih =>
    cases rest with
    | nil => cases h
    | cons hi rest =>
      obtain ⟨hlo, htail⟩ := List.forall_mem_cons.mp hladder
      have hhi := htail hi List.mem_cons_self
      unfold interpolate at h
      split at h
      · next hin =>
        obtain rfl := Option.some.inj h
        have hw : 0 ≤ (v - lo.factor) / (hi.factor - lo.factor) :=
          div_nonneg (by linarith) (by linarith)
        have hw1 : (v - lo.factor) / (hi.factor - lo.factor) ≤ 1 :=
          div_le_one_of_le₀ (by linarith) (by linarith)
        nlinarith
      · exact ih htail h

theorem one_le_lookupLadder {ladder : List LadderStep}
    (hladder : ∀ step ∈ ladder, 1 ≤ step.deduction) (v : ℚ) : 1 ≤ lookupLadder ladder v := by
  have hsorted : ∀ step ∈ ladder.mergeSort fun a b => decide (a.factor ≤ b.factor),
      1 ≤ step.deduction := fun step hstep => hladder step (List.mem_mergeSort.mp hstep)
  unfold lookupLadder
  simp only
  split
  · next first last hfirst hlast =>
    have hone := hsorted _ (List.mem_of_getLast? hlast)
    split
    · exact hsorted _ (List.mem_of_head? hfirst)
    · split
      · exact hone
      · cases hin : interpolate v (ladder.mergeSort fun a b => decide (a.factor ≤ b.factor)) with
        | none => exact hone
        | some x => exact one_le_interpolate hsorted hin
  · exact le_refl 1

theorem multiplyMicroByOdds_le {a : Int} {x : ℚ} (ha : 0 ≤ a) (hx : 0 ≤ x) (hx1 : x ≤ 1) :
    ∃ q, multiplyMicroByOdds a x = .ok q ∧ q ≤ a := by
  unfold multiplyMicroByOdds
  rw [if_neg (not_lt.mpr hx)]
  refine ⟨_, rfl, ?_⟩
  have hround : round (x * 10000) ≤ 10000 := by
    rw [round_eq, ← Int.lt_add_one_iff, Int.floor_lt]
    push_cast
    linarith
  have hround0 : 0 ≤ round (x * 10000) := by
    rw [round_eq]
    exact Int.floor_nonneg.mpr (by positivity)
  rw [Int.tdiv_eq_ediv_of_nonneg (mul_nonneg ha hround0)]
  have hmul : a * round (x * 10000) ≤ a * 10000 := mul_le_mul_of_nonneg_left hround ha
  omega

theorem deduct_le {input : ComputeInput} {v : ℚ} {fair : Int} (hladder : input.config.Deducts)
    (hfair : 0 ≤ fair) :
    ∃ offer factor, deduct input v fair = .ok (offer, factor) ∧ offer ≤ fair := by
  unfold deduct
  split
  · exact ⟨fair, none, rfl, le_refl _⟩
  · exact ⟨fair, none, rfl, le_refl _⟩
  · next ladder _ hsome =>
    have hone := one_le_lookupLadder (hladder _ hsome) (if 0 < input.stakeMicro then v else 1)
    have hpos : (0 : ℚ) < lookupLadder ladder (if 0 < input.stakeMicro then v else 1) := by
      linarith
    obtain ⟨q, hq, hle⟩ := multiplyMicroByOdds_le hfair (one_div_nonneg.mpr hpos.le)
      ((div_le_one hpos).mpr hone)
    simp only
    rw [if_neg hpos.ne', hq]
    exact ⟨q, _, rfl, hle⟩

/-- From the product of the legs to the offer. -/
theorem offerOf_spec {input : ComputeInput} {o p : ℚ} (hladder : input.config.Deducts)
    (hratio : 0 ≤ o * p) (hstake : 0 < input.stakeMicro) (hpot : 0 ≤ input.potentialPayoutMicro) :
    ∃ out, offerOf input o p = .ok out ∧
      multiplyMicroByOdds input.stakeMicro (o * p) = .ok out.ticketValueFairMicro ∧
      out.offerMicro ≤ input.potentialPayoutMicro ∧
      (out.fullPayback = true → out.offerMicro ≤ input.stakeMicro) ∧
      (out.fullPayback = false → out.offerMicro ≤ out.ticketValueFairMicro) := by
  obtain ⟨fair, hfair⟩ : ∃ fair, multiplyMicroByOdds input.stakeMicro (o * p) = .ok fair := by
    unfold multiplyMicroByOdds
    rw [if_neg (not_lt.mpr hratio)]
    exact ⟨_, rfl⟩
  have hnonneg : 0 ≤ fair := by
    rw [multiplyMicroByOdds_ok hratio hstake hfair]
    refine Int.ediv_nonneg (mul_nonneg hstake.le ?_) (by norm_num)
    rw [round_eq]
    exact Int.floor_nonneg.mpr (by positivity)
  -- the ladder only takes away, so what is left is at most the fair value
  obtain ⟨deducted, factor, hdeduct, hle⟩ := deduct_le (v := o * p) hladder hnonneg
  have heq : offerOf input o p =
      let full := input.fullPaybackWindow
      let offer := min (if full then input.stakeMicro else deducted) input.potentialPayoutMicro
      if ¬ full ∧ 0 < input.config.minValueChangeBp ∧ 0 < input.stakeMicro ∧
          |o * p - 1| * 10000 < input.config.minValueChangeBp then
        .ok ⟨some .belowChangeThreshold, 0, o, p, fair, factor, false⟩
      else if offer < input.config.minOfferMicro then
        .ok ⟨some .belowMinimum, offer, o, p, fair, factor, full⟩
      else .ok ⟨none, offer, o, p, fair, factor, full⟩ := by
    unfold offerOf
    extract_lets valueRatio full offer
    rw [hfair]
    change (deduct input (o * p) fair >>= _) = _
    rw [hdeduct]
    rfl
  have hcap := min_le_right (if input.fullPaybackWindow then input.stakeMicro else deducted)
    input.potentialPayoutMicro
  have hoffer := min_le_left (if input.fullPaybackWindow then input.stakeMicro else deducted)
    input.potentialPayoutMicro
  -- the two bounds by the two arguments of the `min`, on either side of the window
  have hfull : ∀ b, input.fullPaybackWindow = b →
      (b = true → min (if input.fullPaybackWindow then input.stakeMicro else deducted)
        input.potentialPayoutMicro ≤ input.stakeMicro) ∧
      (b = false → min (if input.fullPaybackWindow then input.stakeMicro else deducted)
        input.potentialPayoutMicro ≤ fair) := by
    rintro b rfl
    refine ⟨fun h => ?_, fun h => ?_⟩
    · rw [if_pos h] at hoffer
      rwa [if_pos h]
    · have hnot : ¬ input.fullPaybackWindow = true := by rw [h]; simp
      rw [if_neg hnot] at hoffer ⊢
      exact hoffer.trans hle
  rw [heq]
  simp only
  generalize min (if input.fullPaybackWindow then input.stakeMicro else deducted)
    input.potentialPayoutMicro = offer at hcap hfull ⊢
  split
  · exact ⟨_, rfl, hfair, hpot, fun _ => hstake.le, fun _ => hnonneg⟩
  · split
    · refine ⟨_, rfl, ?_⟩
      exact ⟨hfair, hcap, hfull _ rfl⟩
    · refine ⟨_, rfl, ?_⟩
      exact ⟨hfair, hcap, hfull _ rfl⟩

/-! ## Settlement -/

/-- A single of one leg or a combo of at least two. -/
def Shaped (t : Ticket) (sels : List Selection) : Prop :=
  t.betType = .single ∧ sels.length = 1 ∨ t.betType = .combo ∧ 2 ≤ sels.length

/-- The Combi Boost that settlement applies. -/
def boostOf (t : Ticket) (sels : List Selection) : ℚ :=
  if t.betType = .combo ∧ allVoid sels = false then parseComboBoost t.betMeta else 1

theorem one_le_boostOf (t : Ticket) (sels : List Selection) : 1 ≤ boostOf t sels := by
  unfold boostOf
  split
  · exact parseComboBoost_one_le _
  · exact le_refl 1

/-- The legs of a ticket that settlement can pay. -/
structure Payable (sels : List Selection) : Prop where
  odds : ∀ s ∈ sels, 0 < s.oddsAtPlacement
  graded : ∀ s ∈ sels, s.result ≠ none
  plain : ∀ s ∈ sels, PlainFactor s

theorem ticketFactor_nonneg {sels : List Selection} (h : ∀ s ∈ sels, 0 < s.oddsAtPlacement) :
    0 ≤ ticketFactor sels := by
  refine List.prod_nonneg fun x hx => ?_
  obtain ⟨s, hs, rfl⟩ := List.mem_map.mp hx
  exact cashFactor_nonneg (h s hs)

theorem comboFactor_plain {sels : List Selection} (h : Payable sels) :
    comboFactor sels = .ok (ticketFactor sels) := by
  induction sels with
  | nil => rfl
  | cons s sels ih =>
    obtain ⟨hodds0, hodds⟩ := List.forall_mem_cons.mp h.odds
    obtain ⟨hres0, hres⟩ := List.forall_mem_cons.mp h.graded
    obtain ⟨hplain0, hplain⟩ := List.forall_mem_cons.mp h.plain
    unfold comboFactor
    rw [effectiveFactor_plain hodds0 hres0 hplain0, ih ⟨hodds, hres, hplain⟩]
    rfl

/-- What settlement pays for plain legs. -/
theorem computePayout_plain {sels : List Selection} (hshape : Shaped t sels) (h : Payable sels) :
    ∃ credit, computePayout t sels =
      .ok (floorMicro (t.stakeMicro * (ticketFactor sels * boostOf t sels)), credit) := by
  have hnonneg := ticketFactor_nonneg h.odds
  unfold computePayout
  rcases hshape with ⟨hsingle, hlen⟩ | ⟨hcombo, hlen⟩
  · obtain ⟨s, rfl⟩ := List.length_eq_one_iff.mp hlen
    have hfactor : ticketFactor [s] = cashFactor s := List.prod_singleton
    have hboost : boostOf t [s] = 1 := if_neg fun hb => absurd (hsingle.symm.trans hb.1) (by decide)
    have hmem := List.mem_singleton_self s
    rw [hsingle]
    simp only
    unfold singlePayout
    rw [effectiveFactor_plain (h.odds s hmem) (h.graded s hmem) (h.plain s hmem), hfactor,
      hboost, mul_one]
    rw [hfactor] at hnonneg
    refine ⟨ledgerTypeFor s.result, ?_⟩
    change Except.ok (floorMicro (t.stakeMicro * max 0 (cashFactor s)), _) = _
    rw [max_eq_right hnonneg]
  · rw [hcombo]
    simp only
    unfold comboPayout
    rw [if_neg (by omega), comboFactor_plain h]
    refine ⟨if allVoid sels then .betRefund else .betPayout, ?_⟩
    change Except.ok (floorMicro (t.stakeMicro * if allVoid sels then max 0 (ticketFactor sels)
      else max 0 (ticketFactor sels) * parseComboBoost t.betMeta), _) = _
    rw [max_eq_right hnonneg]
    by_cases hvoid : allVoid sels = true
    · have hone : boostOf t sels = 1 := by
        refine if_neg fun hb => ?_
        rw [hvoid] at hb
        exact absurd hb.2 (by simp)
      rw [hone, if_pos hvoid, mul_one]
    · have hboost : boostOf t sels = parseComboBoost t.betMeta :=
        if_pos ⟨hcombo, Bool.eq_false_of_not_eq_true hvoid⟩
      rw [hboost, if_neg hvoid]

/-! ## Open legs -/

/-- The leg once its market is settled, an open one as won. -/
def settledWon (s : Selection) : Selection :=
  match s.result with
  | some _ => s
  | none => { s with result := some .won, voidFactor := none }

/-- One leg before and after the rest of the ticket is settled. -/
def SettledFrom (before after : Selection) : Prop :=
  after.oddsAtPlacement = before.oddsAtPlacement ∧ after.result ≠ none ∧
    (before.result ≠ none → after = before)

theorem settledFrom_settledWon (s : Selection) : SettledFrom s (settledWon s) := by
  unfold SettledFrom settledWon
  cases hres : s.result with
  | none => exact ⟨rfl, by simp, fun h => absurd rfl h⟩
  | some _ => exact ⟨rfl, by simp [hres], fun _ => rfl⟩

theorem cashFactor_settledWon (s : Selection) : cashFactor (settledWon s) = cashFactor s := by
  unfold cashFactor settledWon
  cases hres : s.result with
  | none => rfl
  | some _ => simp only [hres]

theorem plainFactor_settledWon (h : s.result ≠ none → PlainFactor s) :
    PlainFactor (settledWon s) := by
  unfold settledWon
  cases hres : s.result with
  | none => rfl
  | some _ => exact h (by simp [hres])

theorem ticketFactor_settledWon (sels : List Selection) :
    ticketFactor (sels.map settledWon) = ticketFactor sels := by
  unfold ticketFactor
  rw [List.map_map]
  exact congrArg List.prod (List.map_congr_left fun s _ => cashFactor_settledWon s)

theorem payable_settledWon {sels : List Selection} (hodds : ∀ s ∈ sels, 0 < s.oddsAtPlacement)
    (hplain : ∀ s ∈ sels, s.result ≠ none → PlainFactor s) : Payable (sels.map settledWon) := by
  constructor <;> intro s' hs' <;> obtain ⟨s, hs, rfl⟩ := List.mem_map.mp hs'
  · rw [(settledFrom_settledWon s).1]
    exact hodds s hs
  · exact (settledFrom_settledWon s).2.1
  · exact plainFactor_settledWon (hplain s hs)

/-! ## `compute` -/

/-- A ticket that a cashout is asked for. -/
structure Quotable (r : AcceptRequest) (t : Ticket) (legs : List LegRow) : Prop where
  enabled : r.config.enabled = true
  shape : Shaped t (legs.map (·.sel))
  odds : ∀ s ∈ legs.map (·.sel), 0 < s.oddsAtPlacement
  plain : ∀ s ∈ legs.map (·.sel), s.result ≠ none → PlainFactor s
  deducts : r.config.Deducts

theorem Quotable.compute_eq (h : Quotable r t legs) :
    compute (r.input t legs) = (walkLegs (legs.map r.leg) 1 1 >>= fun w =>
      match w with
      | .inl out => pure out
      | .inr (ticketOdds, probability) => offerOf (r.input t legs) ticketOdds probability) := by
  have henabled : ¬ ¬ (r.input t legs).config.enabled = true := not_not.mpr h.enabled
  have htype : ¬ ((r.input t legs).betType = .tiple ∨ (r.input t legs).betType = .tippot ∨
      (r.input t legs).betType = .betbuilder) := by
    change ¬ (t.betType = .tiple ∨ t.betType = .tippot ∨ t.betType = .betbuilder)
    rcases h.shape with ⟨ht, -⟩ | ⟨ht, -⟩ <;> rw [ht] <;> decide
  unfold compute
  rw [if_neg henabled, if_neg htype]
  rfl

/-- A ticket without an open leg. -/
theorem Quotable.graded (h : Quotable r t legs)
    (hres : ∀ l ∈ legs, l.sel.result ≠ none) :
    ∃ out, compute (r.input t legs) = .ok out ∧
      multiplyMicroByOdds t.stakeMicro (ticketFactor (legs.map (·.sel))) =
        .ok out.ticketValueFairMicro := by
  have hodds : ∀ l ∈ legs, 0 < l.sel.oddsAtPlacement := fun l hl =>
    h.odds _ (List.mem_map_of_mem hl)
  have hnonneg := ticketFactor_nonneg h.odds
  rw [h.compute_eq]
  rcases walkLegs_all_graded (r := r) (o := 1) (p := 1) hodds hres with
    ⟨o, p, hwalk, hzero⟩ | ⟨hwalk, -⟩
  · rw [hwalk, hzero]
    refine ⟨_, rfl, ?_⟩
    unfold multiplyMicroByOdds
    rw [if_neg (lt_irrefl _)]
    simp [blank]
  · have hstake : 0 < (r.input t legs).stakeMicro := t.stake_pos
    obtain ⟨out, hout, hfair, -⟩ := offerOf_spec h.deducts
      (show 0 ≤ 1 * ticketFactor (legs.map (·.sel)) * 1 by linarith) hstake t.potential_nonneg
    rw [one_mul, mul_one] at hfair
    rw [hwalk]
    exact ⟨out, hout, hfair⟩

/-- The offer for any ticket. -/
theorem Quotable.offer (h : Quotable r t legs) {out : ComputeOutput}
    (hout : compute (r.input t legs) = .ok out)
    (hprob : ∀ l ∈ legs, ∀ q, legProbability (r.leg l) = .ok (some q) → q ≤ 1) :
    out.offerMicro ≤ t.potentialPayoutMicro ∧
      (out.fullPayback = true → out.offerMicro ≤ t.stakeMicro) ∧
      (out.fullPayback = false → ∃ x fair, 0 ≤ x ∧ x ≤ ticketFactor (legs.map (·.sel)) ∧
        multiplyMicroByOdds t.stakeMicro x = .ok fair ∧ out.offerMicro ≤ fair) := by
  have hodds : ∀ l ∈ legs, 0 < l.sel.oddsAtPlacement := fun l hl =>
    h.odds _ (List.mem_map_of_mem hl)
  have hnonneg := ticketFactor_nonneg h.odds
  rw [h.compute_eq] at hout
  obtain ⟨w, hwalk, hout⟩ := bind_eq_ok.mp hout
  rcases walkLegs_bounds hodds hprob hwalk with ⟨reason, o, p, rfl⟩ | ⟨q, hpos, hle, rfl⟩
  · cases hout
    refine ⟨t.potential_nonneg, fun _ => t.stake_pos.le,
      fun _ => ⟨0, 0, le_refl 0, hnonneg, ?_, ?_⟩⟩
    · unfold multiplyMicroByOdds
      rw [if_neg (lt_irrefl _)]
      simp
    · exact le_refl (0 : Int)
  · have hstake : 0 < (r.input t legs).stakeMicro := t.stake_pos
    obtain ⟨out', hout', hfair, hcap, hfull, hoffer⟩ := offerOf_spec h.deducts
      (show 0 ≤ 1 * ticketFactor (legs.map (·.sel)) * (1 * q) by positivity) hstake
      t.potential_nonneg
    obtain rfl : out' = out := Except.ok.inj (hout'.symm.trans hout)
    refine ⟨hcap, hfull, fun hnot => ⟨_, _, ?_, ?_, hfair, hoffer hnot⟩⟩
    · positivity
    · rw [one_mul, one_mul]
      exact mul_le_of_le_one_right hnonneg hle

/-- The products without a cashout. -/
theorem compute_unsupported (henabled : r.config.enabled = true)
    (ht : t.betType = .tiple ∨ t.betType = .tippot ∨ t.betType = .betbuilder) :
    compute (r.input t legs) = .ok (blank .betTypeUnsupported 0 0) := by
  have hnot : ¬ ¬ (r.input t legs).config.enabled = true := not_not.mpr henabled
  unfold compute
  rw [if_neg hnot]
  exact if_pos ht

/-- The fair value of a graded ticket is what settlement pays without a boost, to the rounding
of the price; an offer is no more than settlement can still pay, to that rounding. -/
theorem cashout_within_settlement (r : AcceptRequest) (t : Ticket) (legs : List LegRow)
    (h : Quotable r t legs) :
    ((∀ l ∈ legs, l.sel.result ≠ none) → ∃ out payout credit,
      compute (r.input t legs) = .ok out ∧
      computePayout t (legs.map (·.sel)) = .ok (payout, credit) ∧
      (boostOf t (legs.map (·.sel)) = 1 →
        |(payout : ℚ) - out.ticketValueFairMicro| < t.stakeMicro / 20000 + 1 + payoutEpsilon ∧
        (OnGrid 4 (ticketFactor (legs.map (·.sel))) → out.ticketValueFairMicro = payout)) ∧
      (out.ticketValueFairMicro : ℚ) < payout + t.stakeMicro / 20000 + 1 + payoutEpsilon) ∧
    (∀ out, compute (r.input t legs) = .ok out →
      (∀ l ∈ legs, ∀ q, legProbability (r.leg l) = .ok (some q) → q ≤ 1) →
      out.offerMicro ≤ t.potentialPayoutMicro ∧
      (out.fullPayback = true → out.offerMicro ≤ t.stakeMicro) ∧
      (out.fullPayback = false → ∃ sels payout credit,
        List.Forall₂ SettledFrom (legs.map (·.sel)) sels ∧
        computePayout t sels = .ok (payout, credit) ∧
        (out.offerMicro : ℚ) < payout + t.stakeMicro / 20000 + 1 + payoutEpsilon)) ∧
    ∀ t' legs', t'.betType = .tiple ∨ t'.betType = .tippot ∨ t'.betType = .betbuilder →
      compute (r.input t' legs') = .ok (blank .betTypeUnsupported 0 0) := by
  have hnonneg := ticketFactor_nonneg h.odds
  have hstake : (0 : ℚ) ≤ t.stakeMicro := by exact_mod_cast t.stake_pos.le
  have hmono : ∀ x b : ℚ, 0 ≤ x → x ≤ ticketFactor (legs.map (·.sel)) → 1 ≤ b →
      floorMicro (t.stakeMicro * x) ≤
        floorMicro (t.stakeMicro * (ticketFactor (legs.map (·.sel)) * b)) := by
    intro x b hx hle hb
    unfold floorMicro
    have hprod : x ≤ ticketFactor (legs.map (·.sel)) * b :=
      hle.trans (le_mul_of_one_le_right hnonneg hb)
    exact Int.floor_le_floor (by linarith [mul_le_mul_of_nonneg_left hprod hstake])
  refine ⟨?_, ?_, fun t' legs' => compute_unsupported h.enabled⟩
  · intro hres
    have hpayable : Payable (legs.map (·.sel)) := by
      have hgraded : ∀ s ∈ legs.map (·.sel), s.result ≠ none := by
        intro s hs
        obtain ⟨l, hl, rfl⟩ := List.mem_map.mp hs
        exact hres l hl
      exact ⟨h.odds, hgraded, fun s hs => h.plain s hs (hgraded s hs)⟩
    obtain ⟨out, hout, hfair⟩ := h.graded hres
    obtain ⟨credit, hpay⟩ := computePayout_plain h.shape hpayable
    have hclose := floorMicro_close hnonneg t.stake_pos hfair
    refine ⟨out, _, credit, hout, hpay, fun hone => ?_, ?_⟩
    · rw [hone, mul_one]
      exact ⟨hclose, fun hgrid => (floorMicro_of_onGrid hgrid hnonneg t.stake_pos hfair).symm⟩
    · have hle := hmono _ _ hnonneg (le_refl _) (one_le_boostOf t (legs.map (·.sel)))
      have hcast : ((floorMicro (t.stakeMicro * ticketFactor (legs.map (·.sel))) : Int) : ℚ) ≤
          (floorMicro (t.stakeMicro * (ticketFactor (legs.map (·.sel)) *
            boostOf t (legs.map (·.sel)))) : Int) := by exact_mod_cast hle
      linarith [(abs_lt.mp hclose).1]
  · intro out hout hprob
    obtain ⟨hcap, hfull, hoffer⟩ := h.offer hout hprob
    refine ⟨hcap, hfull, fun hnot => ?_⟩
    obtain ⟨x, fair, hx, hle, hfair, hle'⟩ := hoffer hnot
    -- the open legs are won
    have hpayable := payable_settledWon h.odds h.plain
    have hshape : Shaped t ((legs.map (·.sel)).map settledWon) := by
      unfold Shaped
      rw [List.length_map]
      exact h.shape
    obtain ⟨credit, hpay⟩ := computePayout_plain hshape hpayable
    rw [ticketFactor_settledWon] at hpay
    refine ⟨_, _, credit, ?_, hpay, ?_⟩
    · rw [List.forall₂_map_right_iff]
      exact List.forall₂_same.mpr fun s _ => settledFrom_settledWon s
    · have hclose := floorMicro_close hx t.stake_pos hfair
      have hcast : ((floorMicro (t.stakeMicro * x) : Int) : ℚ) ≤
          (floorMicro (t.stakeMicro * (ticketFactor (legs.map (·.sel)) *
            boostOf t ((legs.map (·.sel)).map settledWon))) : Int) := by
        exact_mod_cast hmono x _ hx hle (one_le_boostOf t _)
      have hofferq : (out.offerMicro : ℚ) ≤ fair := by exact_mod_cast hle'
      linarith [(abs_lt.mp hclose).1]

/-! ## Won combos -/

def wonCombo (potentialPayoutMicro : Nat) (betMeta : Option BetMetaJson) : Ticket where
  userId := .ofDigit 1
  currency := "USDC"
  status := .accepted
  betType := .combo
  stakeMicro := 1000000000
  potentialPayoutMicro := potentialPayoutMicro
  actualPayoutMicro := none
  betMeta := betMeta
  placedAtMs := 0
  stake_pos := by decide
  potential_nonneg := Int.natCast_nonneg _

/-- Two won legs; the second has a void factor with its result. -/
def wonLegs (first second : ℚ) (voidFactor : Option ℚ) : List LegRow :=
  [⟨⟨.ofDigit 2, 1, "1"⟩, ⟨first, some .won, none⟩, -3⟩,
    ⟨⟨.ofDigit 2, 2, "1"⟩, ⟨second, some .won, voidFactor⟩, -3⟩]

def wonRequest : AcceptRequest where
  userId := .ofDigit 1
  ticketId := .ofDigit 2
  quoteId := .ofDigit 3
  expectedOfferMicro := 1777600000
  expired := false
  config := ⟨true, 0, none, 0, 0⟩
  market := fun _ => ⟨none, none, false⟩
  matchEarliestKickoffMs := none
  nowMs := 60000

/-- The reason, the fair value and the offer for a ticket. -/
def quoted (t : Ticket) (legs : List LegRow) :
    Except Error (Option UnavailableReason × Int × Int) :=
  (compute (wonRequest.input t legs)).map fun out =>
    (out.reason, out.ticketValueFairMicro, out.offerMicro)

/-- The fair value of a won combo meets its payout to the rounding. -/
theorem won_combo_within : ∃ out payout credit,
    compute (wonRequest.input (wonCombo 1777600000 none) (wonLegs (13333 / 10000) (13332 / 10000)
      none)) = .ok out ∧
    computePayout (wonCombo 1777600000 none) ((wonLegs (13333 / 10000) (13332 / 10000) none).map
      (·.sel)) = .ok (payout, credit) ∧
    (out.ticketValueFairMicro : ℚ) < payout + 1000000000 / 20000 + 1 + payoutEpsilon := by
  have hquotable : Quotable wonRequest (wonCombo 1777600000 none)
      (wonLegs (13333 / 10000) (13332 / 10000) none) := by
    refine ⟨rfl, .inr ⟨rfl, by decide⟩, by decide +kernel, ?_, fun ladder h => by cases h⟩
    intro s hs _
    simp only [wonLegs, List.map_cons, List.map_nil, List.mem_cons, List.not_mem_nil,
      or_false] at hs
    rcases hs with rfl | rfl <;> rfl
  obtain ⟨out, payout, credit, hout, hpay, -, hlt⟩ :=
    (cashout_within_settlement _ _ _ hquotable).1 (by decide)
  exact ⟨out, payout, credit, hout, hpay, by simpa [wonCombo] using hlt⟩

/-- At 1.3333 and 1.3332 the price is rounded up and the offer is more than settlement pays; a
Combi Boost is not in the fair value, and a void factor that is not one half is not looked at. -/
theorem won_combos_differ :
    (quoted (wonCombo 1777600000 none) (wonLegs (13333 / 10000) (13332 / 10000) none) =
        .ok (none, 1777600000, 1777600000) ∧
      computePayout (wonCombo 1777600000 none)
        ((wonLegs (13333 / 10000) (13332 / 10000) none).map (·.sel)) =
        .ok (1777555560, .betPayout)) ∧
    (quoted (wonCombo 4200000000
        (some (.obj { product := "combo", boostMultiplier := some (105 / 100) })))
        (wonLegs 2 2 none) = .ok (none, 4000000000, 4000000000) ∧
      computePayout (wonCombo 4200000000
        (some (.obj { product := "combo", boostMultiplier := some (105 / 100) })))
        ((wonLegs 2 2 none).map (·.sel)) = .ok (4200000000, .betPayout)) ∧
    quoted (wonCombo 4000000000 none) (wonLegs 2 2 (some (1 / 4))) =
        .ok (none, 4000000000, 4000000000) ∧
      computePayout (wonCombo 4000000000 none) ((wonLegs 2 2 (some (1 / 4))).map (·.sel)) =
        .ok (3500000000, .betPayout) := by
  refine ⟨⟨?_, ?_⟩, ⟨?_, ?_⟩, ?_, ?_⟩ <;> decide +kernel

end Oddzilla.Cashout
