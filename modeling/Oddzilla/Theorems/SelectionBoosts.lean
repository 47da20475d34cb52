import Mathlib.Algebra.BigOperators.Fin
import Mathlib.Tactic
import Oddzilla.Odds.Netwinstable

/-!
# Boosts of single selections

`boostSelectionKeys` takes what it gives out of the book's margin: each selection asks for
its cap, and where they ask for more than there is, each gets the same share of it.
-/

namespace Oddzilla.Boost

variable {odds pcts caps : List ℚ} {o cap scale : ℚ}

/-! ## One price -/

/-- A price with a share of its cap taken off its key. -/
def boostAt (scale o cap : ℚ) : ℚ :=
  if 0 < cap * scale ∧ 0 < 1 / o - cap * scale then 1 / (1 / o - cap * scale) else o

/-- What the code gives of a key. -/
def given (scale o cap : ℚ) : ℚ :=
  if 0 < cap * scale ∧ 0 < 1 / o - cap * scale then cap * scale else 0

theorem given_nonneg (scale o cap : ℚ) : 0 ≤ given scale o cap := by
  unfold given
  split
  · next h => exact h.1.le
  · exact le_refl 0

theorem boostAt_eq_given :
    boostAt scale o cap = if 0 < given scale o cap then 1 / (1 / o - given scale o cap) else o := by
  unfold boostAt given
  by_cases h : 0 < cap * scale ∧ 0 < 1 / o - cap * scale
  · rw [if_pos h, if_pos h, if_pos h.1]
  · rw [if_neg h, if_neg h, if_neg (lt_irrefl 0)]

theorem boostAt_of_given (h : given scale o cap = 0) : boostAt scale o cap = o := by
  rw [boostAt_eq_given, h, if_neg (lt_irrefl 0)]

theorem selectionCap_nonneg (o pct : ℚ) : 0 ≤ selectionCap o pct := by
  unfold selectionCap selectionBoostMaxProbShare
  split
  · next h =>
    have ho : 0 < o := by linarith [h.1]
    exact le_min (by linarith [h.2]) (by positivity)
  · exact le_refl 0

theorem selectionCap_le (ho : 1 < o) (pct : ℚ) : selectionCap o pct ≤ 1 / o * (1 / 2) := by
  unfold selectionCap selectionBoostMaxProbShare
  split
  · exact min_le_right _ _
  · have : 0 < o := by linarith
    positivity

/-- A price of which no boost is asked. -/
theorem selectionCap_unboosted {pct : ℚ} (h : pct ≤ 0) : selectionCap o pct = 0 := by
  unfold selectionCap
  rw [if_neg fun hpct => not_lt.mpr h hpct.2]

theorem boostAt_zero : boostAt scale o 0 = o := by
  unfold boostAt
  rw [zero_mul, if_neg fun h => lt_irrefl _ h.1]

/-- A price, its cap and the part of the cap that it gets. -/
structure Share (scale o cap : ℚ) : Prop where
  price : 1 < o
  cap_nonneg : 0 ≤ cap
  cap_half : cap ≤ 1 / o * (1 / 2)
  scale_nonneg : 0 ≤ scale
  scale_le_one : scale ≤ 1

namespace Share

variable (h : Share scale o cap)

include h

theorem nonneg : 0 ≤ cap * scale := mul_nonneg h.cap_nonneg h.scale_nonneg

/-- At most half of the key is taken off. -/
theorem half : cap * scale ≤ 1 / o * (1 / 2) :=
  (mul_le_of_le_one_right h.cap_nonneg h.scale_le_one).trans h.cap_half

theorem key_pos : 0 < 1 / o - cap * scale := by
  have hinv : 0 < 1 / o := one_div_pos.mpr (by linarith [h.price])
  linarith [h.half]

theorem boostAt_eq : boostAt scale o cap = 1 / (1 / o - cap * scale) := by
  unfold boostAt
  by_cases hzero : cap * scale = 0
  · rw [if_neg fun hpos => hpos.1.ne' hzero, hzero, sub_zero, one_div_one_div]
  · rw [if_pos ⟨lt_of_le_of_ne h.nonneg (Ne.symm hzero), h.key_pos⟩]

/-- The key of a boosted price. -/
theorem inv_boostAt : 1 / boostAt scale o cap = 1 / o - cap * scale := by
  rw [h.boostAt_eq, one_div_one_div]

theorem le_boostAt : o ≤ boostAt scale o cap := by
  rw [h.boostAt_eq]
  calc o = 1 / (1 / o) := (one_div_one_div o).symm
    _ ≤ 1 / (1 / o - cap * scale) :=
      one_div_le_one_div_of_le h.key_pos (by linarith [h.nonneg])

theorem boostAt_le : boostAt scale o cap ≤ 2 * o := by
  have hpos : 0 < o := by linarith [h.price]
  have hhalf : 0 < 1 / o * (1 / 2) := by positivity
  rw [h.boostAt_eq]
  calc 1 / (1 / o - cap * scale) ≤ 1 / (1 / o * (1 / 2)) :=
      one_div_le_one_div_of_le hhalf (by linarith [h.half])
    _ = 2 * o := by field_simp

end Share

/-! ## The share -/

/-- What part of its cap each selection gets. -/
def scaleOf (headroom totalRequested : ℚ) : ℚ :=
  if headroom ≤ 0 ∨ totalRequested ≤ 0 then 0
  else if headroom < totalRequested then headroom / totalRequested
  else 1

theorem scaleOf_nonneg (headroom total : ℚ) : 0 ≤ scaleOf headroom total := by
  unfold scaleOf
  split
  · exact le_refl 0
  · next h =>
    rw [not_or, not_le, not_le] at h
    split
    · exact (div_pos h.1 h.2).le
    · exact zero_le_one

theorem scaleOf_le_one (headroom total : ℚ) : scaleOf headroom total ≤ 1 := by
  unfold scaleOf
  split
  · exact zero_le_one
  · next h =>
    rw [not_or, not_le, not_le] at h
    split
    · next hlt => exact (div_le_one h.2).mpr hlt.le
    · exact le_refl 1

/-- All together get no more than there is. -/
theorem mul_scaleOf_le {headroom : ℚ} (h : 0 ≤ headroom) (total : ℚ) :
    total * scaleOf headroom total ≤ headroom := by
  unfold scaleOf
  split
  · rw [mul_zero]
    exact h
  · next hpos =>
    rw [not_or, not_le, not_le] at hpos
    split
    · rw [mul_div_cancel₀ _ hpos.2.ne']
    · next hle =>
      rw [mul_one]
      exact not_lt.mp hle

/-! ## The market -/

section

variable {n : Nat} (odds pcts : Fin n → ℚ)

/-- What part of its cap each selection of a market gets. -/
def marketScale : ℚ :=
  scaleOf (bookKey (List.ofFn odds) - 1) (∑ j, selectionCap (odds j) (pcts j))

/-- The prices of a market after its boosts. -/
def boosted (i : Fin n) : ℚ :=
  boostAt (marketScale odds pcts) (odds i) (selectionCap (odds i) (pcts i))

theorem zipWith_ofFn {α β γ : Type} (f : α → β → γ) (a : Fin n → α) (b : Fin n → β) :
    List.zipWith f (List.ofFn a) (List.ofFn b) = List.ofFn fun i => f (a i) (b i) := by
  refine List.ext_getElem (by simp) fun i hi hi' => ?_
  rw [List.getElem_zipWith, List.getElem_ofFn, List.getElem_ofFn, List.getElem_ofFn]

theorem bookKey_ofFn {odds : Fin n → ℚ} (h : ∀ i, 1 < odds i) :
    bookKey (List.ofFn odds) = ∑ i, 1 / odds i := by
  unfold bookKey
  rw [List.map_ofFn, List.sum_ofFn]
  exact Finset.sum_congr rfl fun i _ => if_pos (h i)

theorem boosted_zero {odds pcts : Fin n → ℚ} (h : marketScale odds pcts = 0) :
    boosted odds pcts = odds := by
  funext i
  unfold boosted boostAt
  rw [h, mul_zero, if_neg fun hpos => lt_irrefl _ hpos.1]

/-- The code's lists, entry by entry. -/
theorem adjustedOdds_ofFn :
    (boostSelectionKeys (List.ofFn odds) (List.ofFn pcts)).adjustedOdds =
      List.ofFn (boosted odds pcts) := by
  have hcaps : List.zipWith selectionCap (List.ofFn odds)
      ((List.ofFn pcts).rightpad (List.ofFn odds).length 0) =
        List.ofFn fun i => selectionCap (odds i) (pcts i) := by
    rw [← zipWith_ofFn]
    simp [List.rightpad]
  unfold boostSelectionKeys
  rw [hcaps]
  simp only [List.sum_ofFn]
  split
  · next hnone =>
    rw [boosted_zero (if_pos hnone)]
  · next hsome =>
    have hscale : marketScale odds pcts =
        if bookKey (List.ofFn odds) - 1 < ∑ j, selectionCap (odds j) (pcts j) then
          (bookKey (List.ofFn odds) - 1) / ∑ j, selectionCap (odds j) (pcts j) else 1 :=
      if_neg hsome
    rw [← hscale, zipWith_ofFn, List.sum_ofFn]
    split
    · next hsum =>
      -- nothing is given, so no cap has a share
      have hnone : ∀ i, boosted odds pcts i = odds i := by
        intro i
        have hzero := (Finset.sum_eq_zero_iff_of_nonneg fun j _ => given_nonneg _ _ _).mp
          (le_antisymm hsum (Finset.sum_nonneg fun j _ => given_nonneg _ _ _)) i (Finset.mem_univ i)
        exact boostAt_of_given hzero
      rw [show boosted odds pcts = odds from funext hnone]
    · rw [zipWith_ofFn]
      exact congrArg List.ofFn (funext fun i => boostAt_eq_given.symm)

end

section

variable {n : Nat} {odds : Fin n → ℚ} (pcts : Fin n → ℚ)

/-- Every price of the market gets a share. -/
theorem market_share (h : ∀ i, 1 < odds i) (i : Fin n) :
    Share (marketScale odds pcts) (odds i) (selectionCap (odds i) (pcts i)) where
  price := h i
  cap_nonneg := selectionCap_nonneg _ _
  cap_half := selectionCap_le (h i) _
  scale_nonneg := scaleOf_nonneg _ _
  scale_le_one := scaleOf_le_one _ _

/-- The boosts are taken off the margin and leave the book a key of 1. -/
theorem one_le_bookKey_boosted (h : ∀ i, 1 < odds i) (hbook : 1 ≤ bookKey (List.ofFn odds)) :
    1 ≤ bookKey (List.ofFn (boosted odds pcts)) := by
  have hprices : ∀ i, 1 < boosted odds pcts i := fun i =>
    (h i).trans_le (market_share pcts h i).le_boostAt
  have hgiven : (∑ j, selectionCap (odds j) (pcts j)) * marketScale odds pcts ≤
      bookKey (List.ofFn odds) - 1 :=
    mul_scaleOf_le (sub_nonneg.mpr hbook) _
  have hkeys : ∑ i, 1 / boosted odds pcts i =
      ∑ i, (1 / odds i - selectionCap (odds i) (pcts i) * marketScale odds pcts) :=
    Finset.sum_congr rfl fun i _ => (market_share pcts h i).inv_boostAt
  rw [bookKey_ofFn hprices, hkeys, Finset.sum_sub_distrib, ← Finset.sum_mul, ← bookKey_ofFn h]
  linarith

/-- A book without margin has nothing to give. -/
theorem boosted_fair (hbook : bookKey (List.ofFn odds) ≤ 1) : boosted odds pcts = odds :=
  boosted_zero (if_pos (.inl (by linarith)))

theorem boosted_comp (σ : Equiv.Perm (Fin n)) :
    boosted (odds ∘ σ) (pcts ∘ σ) = boosted odds pcts ∘ σ := by
  have hbook : bookKey (List.ofFn (odds ∘ σ)) = bookKey (List.ofFn odds) := by
    unfold bookKey
    rw [List.map_ofFn, List.map_ofFn, List.sum_ofFn, List.sum_ofFn]
    exact Equiv.sum_comp σ fun i => if 1 < odds i then 1 / odds i else 0
  have htotal : ∑ j, selectionCap ((odds ∘ σ) j) ((pcts ∘ σ) j) =
      ∑ j, selectionCap (odds j) (pcts j) :=
    Equiv.sum_comp σ fun j => selectionCap (odds j) (pcts j)
  have hscale : marketScale (odds ∘ σ) (pcts ∘ σ) = marketScale odds pcts := by
    unfold marketScale
    rw [hbook, htotal]
  funext i
  unfold boosted
  rw [hscale]
  rfl

end

/-- Boosts of selections keep a book that is not below 1 there and leave one below 1 as it is;
no price falls or more than doubles, the others stay, and the order does not matter. -/
theorem selection_boosts_safe {n : Nat} {odds : Fin n → ℚ} (pcts : Fin n → ℚ)
    (h : ∀ i, 1 < odds i) :
    ∃ adjusted : Fin n → ℚ,
      (boostSelectionKeys (List.ofFn odds) (List.ofFn pcts)).adjustedOdds = List.ofFn adjusted ∧
      (1 ≤ bookKey (List.ofFn odds) → 1 ≤ bookKey (List.ofFn adjusted)) ∧
      (bookKey (List.ofFn odds) ≤ 1 → adjusted = odds) ∧
      (∀ i, odds i ≤ adjusted i ∧ adjusted i ≤ 2 * odds i) ∧
      (∀ i, pcts i ≤ 0 → adjusted i = odds i) ∧
      ∀ σ : Equiv.Perm (Fin n),
        (boostSelectionKeys (List.ofFn (odds ∘ σ)) (List.ofFn (pcts ∘ σ))).adjustedOdds =
          List.ofFn (adjusted ∘ σ) := by
  refine ⟨boosted odds pcts, adjustedOdds_ofFn odds pcts, one_le_bookKey_boosted pcts h,
    boosted_fair pcts, fun i => ?_, fun i hpct => ?_, fun σ => ?_⟩
  · have hshare := market_share pcts h i
    exact ⟨hshare.le_boostAt, hshare.boostAt_le⟩
  · unfold boosted
    rw [selectionCap_unboosted hpct, boostAt_zero]
  · rw [adjustedOdds_ofFn, boosted_comp]

/-- A boost of the second of two prices at 1.90. -/
theorem selection_boosts_safe_pair :
    ∃ adjusted : Fin 2 → ℚ,
      (boostSelectionKeys [19 / 10, 19 / 10] [0, 3]).adjustedOdds = List.ofFn adjusted ∧
      1 ≤ bookKey (List.ofFn adjusted) := by
  have h : ∀ i, 1 < (![19 / 10, 19 / 10] : Fin 2 → ℚ) i := by decide +kernel
  obtain ⟨adjusted, heq, hkey, -⟩ := selection_boosts_safe ![0, 3] h
  exact ⟨adjusted, heq, hkey (by decide +kernel)⟩

/-- Two prices at 3.00 make a book of two thirds, and it stays there. -/
theorem thin_book_stays :
    bookKey (boostSelectionKeys [3, 3] [5, 0]).adjustedOdds = 2 / 3 ∧
      ¬ 1 ≤ bookKey (boostSelectionKeys [3, 3] [5, 0]).adjustedOdds := by
  decide +kernel

end Oddzilla.Boost
