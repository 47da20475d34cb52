import Oddzilla.Odds.Products

/-!
# Tippot pays the margin and no more

The table is the Poisson-binomial distribution, a tier more always pays more,
and the expected payout is the stake over `1 + m`, whatever the legs.  Cutting
the multipliers to four decimals only lowers it.  The two sides agree on every
multiplier; they part on the recorded `P(≥ k)` when it lies halfway between two
texts and the lower one ends in an even digit.
-/

namespace Oddzilla.Theorems

open PoissonBinomial Products

variable {ps : List ℚ} {m : ℚ}

theorem cumulative_eq_sum (ps : List ℚ) (divisor : ℚ) (j : ℕ) :
    cumulative ps divisor j = ∑ k ∈ Finset.range j,
      1 / ps.length / Products.pAtLeast ps (k + 1) / divisor := by
  induction j with
  | zero => rfl
  | succ j ih => rw [cumulative, ih, Finset.sum_range_succ]

/-- The price of one tier. -/
theorem tierOffered_pos (hps : Proper ps) (hm : 0 ≤ m) {k : ℕ} (hk : k < ps.length) :
    0 < 1 / (ps.length : ℚ) / Products.pAtLeast ps (k + 1) / (1 + m) := by
  have hn : (0 : ℚ) < ps.length := by exact_mod_cast (by omega : 0 < ps.length)
  have hpk := pAtLeast_pos hps (k := k + 1) (by omega)
  have hdivisor : 0 < 1 + m := by linarith
  positivity

theorem cumulative_strictMonoOn (hps : Proper ps) (hm : 0 ≤ m) :
    StrictMonoOn (cumulative ps (1 + m)) (Set.Iic ps.length) := by
  intro i hi j hj hij
  rw [Set.mem_Iic] at hj
  rw [cumulative_eq_sum, cumulative_eq_sum]
  refine Finset.sum_lt_sum_of_subset (i := i) (Finset.range_mono hij.le) ?_ ?_ ?_ ?_
  · rw [Finset.mem_range]
    exact hij
  · rw [Finset.mem_range]
    exact lt_irrefl i
  · exact tierOffered_pos hps hm (by omega)
  · intro k hk _
    rw [Finset.mem_range] at hk
    exact (tierOffered_pos hps hm (by omega)).le

theorem cumulative_nonneg (hps : Proper ps) (hm : 0 ≤ m) {j : ℕ} (hj : j ≤ ps.length) :
    0 ≤ cumulative ps (1 + m) j := by
  rw [cumulative_eq_sum]
  apply Finset.sum_nonneg
  intro k hk
  rw [Finset.mem_range] at hk
  exact (tierOffered_pos hps hm (by omega)).le

/-- Each tier is a bet of an `n`-th of the stake at its own fair price. -/
theorem expected_payout (hne : ps ≠ []) (hps : Proper ps) :
    ∑ j ∈ Finset.range (ps.length + 1), exactly ps j * cumulative ps (1 + m) j = 1 / (1 + m) := by
  have hn : (ps.length : ℚ) ≠ 0 := by
    exact_mod_cast (List.length_pos_iff.mpr hne).ne'
  simp only [cumulative_eq_sum]
  rw [sum_exactly_cumulative ps fun k => 1 / ps.length / Products.pAtLeast ps (k + 1) / (1 + m)]
  have hpart : ∀ k ∈ Finset.range ps.length,
      1 / ps.length / Products.pAtLeast ps (k + 1) / (1 + m) * atLeast ps (k + 1) = 1 / ps.length * (1 / (1 + m)) := by
    intro k hk
    rw [Finset.mem_range] at hk
    have hpos := atLeast_pos hps (k := k + 1) (by omega)
    rw [pAtLeast_eq ps (by omega), div_right_comm, div_mul_cancel₀ _ hpos.ne']
    ring
  rw [Finset.sum_congr rfl hpart, Finset.sum_const, Finset.card_range, nsmul_eq_mul, ← mul_assoc,
    mul_one_div_cancel hn, one_mul]

theorem floorToDecimals_le {x : ℚ} (hx : 0 ≤ x) (d : ℕ) : floorToDecimals x d ≤ x := by
  unfold floorToDecimals Decimal.trunc
  rw [if_neg (not_lt.mpr hx), div_le_iff₀ (Decimal.pow_pos d)]
  exact Int.floor_le _

theorem expected_floored_le (hne : ps ≠ []) (hps : Proper ps) (hm : 0 ≤ m) :
    ∑ j ∈ Finset.range (ps.length + 1),
      exactly ps j * floorToDecimals (cumulative ps (1 + m) j) tippotDecimals ≤ 1 / (1 + m) := by
  rw [← expected_payout hne hps]
  apply Finset.sum_le_sum
  intro j hj
  rw [Finset.mem_range] at hj
  have hle := floorToDecimals_le (cumulative_nonneg hps hm (j := j) (by omega)) tippotDecimals
  exact mul_le_mul_of_nonneg_left hle (exactly_pos hps (by omega)).le

/-- The two writings of a probability agree unless it is a half above an even digit. -/
theorem formatFloat_eq_toFixed_iff (d : ℕ) (x : ℚ) :
    formatFloat d x = toFixed d x ↔ ¬ Decimal.EvenTie (x * 10 ^ d) := by
  unfold formatFloat toFixed
  rw [div_left_inj' (Decimal.pow_pos d).ne', Int.cast_inj, ← Decimal.round_eq_roundHalfEven_iff,
    eq_comm]

theorem quotes_eq_iff {marginBp : ℤ} (hps : Proper ps) (hm0 : 0 ≤ marginBp) :
    goPriceTippot ps marginBp = Products.priceTippot ps marginBp ↔
      ps.length < 2 ∨ 200000 < marginBp ∨
        ∀ k, 1 ≤ k → k ≤ ps.length → ¬ Decimal.EvenTie (atLeast ps k * 10 ^ 6) := by
  unfold goPriceTippot Products.priceTippot
  by_cases hn : ps.length < 2
  · exact iff_of_true (price_refused _ _ (Or.inl hn)) (Or.inl hn)
  by_cases hm1 : 200000 < marginBp
  · exact iff_of_true (price_refused _ _ (Or.inr hm1)) (Or.inr (Or.inl hm1))
  rw [price_eq golang hps (by omega) hm0 (by omega),
    price_eq typescript hps (by omega) hm0 (by omega)]
  -- tier by tier, only the six decimals can differ
  simp only [hn, hm1, false_or, Except.ok.injEq, TippotQuote.mk.injEq, true_and, List.map_inj_left,
    List.mem_range]
  constructor
  · intro h k hk1 hkn
    obtain ⟨i, rfl⟩ := Nat.exists_eq_add_of_le' hk1
    have htier := congrArg TippotTier.pAtLeastK (h i (by omega))
    rw [← formatFloat_eq_toFixed_iff, ← pAtLeast_eq ps hkn]
    exact htier
  · intro h i hi
    have htie := h (i + 1) (by omega) (by omega)
    rw [← formatFloat_eq_toFixed_iff, ← pAtLeast_eq ps (by omega)] at htie
    unfold tierAt
    rw [show golang.sixDecimals = formatFloat 6 from rfl, htie]
    rfl

/-- The price is exact for all legs and margins; the two sides return the same
tiers unless some `P(≥ k)` is a half above an even sixth decimal. -/
theorem tippot_exact_same_iff_no_tie (ps : List ℚ) (hne : ps ≠ []) (hps : Proper ps) :
    ((Products.pmf ps).length = ps.length + 1 ∧ ∀ k, (Products.pmf ps).getD k 0 = exactly ps k) ∧
    (∀ m : ℚ, 0 ≤ m →
      StrictMonoOn (cumulative ps (1 + m)) (Set.Iic ps.length) ∧
      ∑ j ∈ Finset.range (ps.length + 1), exactly ps j * cumulative ps (1 + m) j = 1 / (1 + m) ∧
      ∑ j ∈ Finset.range (ps.length + 1),
        exactly ps j * floorToDecimals (cumulative ps (1 + m) j) tippotDecimals ≤ 1 / (1 + m)) ∧
    (∀ (d : Dialect) (marginBp : ℤ), 2 ≤ ps.length → 0 ≤ marginBp → marginBp ≤ 200000 →
      price d ps marginBp = .ok ⟨marginBp, ps.length, (List.range ps.length).map fun i =>
        ⟨i + 1, d.sixDecimals (atLeast ps (i + 1)),
          floorToDecimals (cumulative ps (1 + marginBp / 10000) (i + 1)) tippotDecimals⟩⟩) ∧
    ∀ marginBp : ℤ, 0 ≤ marginBp →
      (goPriceTippot ps marginBp = Products.priceTippot ps marginBp ↔
        ps.length < 2 ∨ 200000 < marginBp ∨
          ∀ k, 1 ≤ k → k ≤ ps.length → ¬ Decimal.EvenTie (atLeast ps k * 10 ^ 6)) := by
  refine ⟨pmf_holds ps, ?_, ?_, ?_⟩
  · intro m hm
    exact ⟨cumulative_strictMonoOn hps hm, expected_payout hne hps, expected_floored_le hne hps hm⟩
  · intro d marginBp hn hm0 hm1
    rw [price_eq d hps hn hm0 hm1]
    congr 2
    apply List.map_congr_left
    intro i hi
    rw [List.mem_range] at hi
    rw [tierAt, pAtLeast_eq ps (by omega)]
  · intro marginBp hm0
    exact quotes_eq_iff hps hm0

/-- Seven even legs: `P(≥ 7)` is 0.0078125, written 0.007813 and 0.007812. -/
theorem even_legs_differ :
    Proper (List.replicate 7 (1 / 2 : ℚ)) ∧
    goPriceTippot (List.replicate 7 (1 / 2)) 500 ≠ Products.priceTippot (List.replicate 7 (1 / 2))
      500 := by
  refine ⟨?_, by decide +kernel⟩
  intro p hp
  rw [List.eq_of_mem_replicate hp]
  norm_num

theorem tippot_exact_two_legs :
    ∑ j ∈ Finset.range 3, exactly [1 / 2, 1 / 4] j * cumulative [1 / 2, 1 / 4] (1 + 1 / 20) j =
      1 / (1 + 1 / 20) ∧
    goPriceTippot [1 / 2, 1 / 4] 500 = Products.priceTippot [1 / 2, 1 / 4] 500 := by
  have hps : Proper ([1 / 2, 1 / 4] : List ℚ) := by
    intro p hp
    simp only [List.mem_cons, List.not_mem_nil, or_false] at hp
    obtain rfl | rfl := hp <;> norm_num
  have h := tippot_exact_same_iff_no_tie [1 / 2, 1 / 4] (by simp) hps
  exact ⟨(h.2.1 (1 / 20) (by norm_num)).2.1, by decide +kernel⟩

end Oddzilla.Theorems
