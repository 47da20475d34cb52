import Mathlib

/-!
# The number of successes of independent trials

`exactly ps j` sums the chances of all outcomes with `j` successes, where trial
`i` succeeds with chance `ps[i]`.  It satisfies the recurrence that tables of it
are filled by, at either end of the list, and splits an expectation over the
number of successes into one over the tails (`sum_exactly_cumulative`).
-/

namespace PoissonBinomial

variable {R : Type*}

/-- All outcomes of `n` trials. -/
def outcomes : ℕ → List (List Bool)
  | 0 => [[]]
  | n + 1 => (outcomes n).map (false :: ·) ++ (outcomes n).map (true :: ·)

section Ring

variable [CommRing R]

/-- The chance of one outcome. -/
def chance (ps : List R) (o : List Bool) : R :=
  (List.zipWith (fun p win => if win then p else 1 - p) ps o).prod

/-- The chance of exactly `j` successes. -/
def exactly (ps : List R) (j : ℕ) : R :=
  (((outcomes ps.length).filter fun o => o.count true = j).map (chance ps)).sum

/-- The chance of at least `k` successes. -/
def atLeast (ps : List R) (k : ℕ) : R := ∑ j ∈ Finset.Ico k (ps.length + 1), exactly ps j

theorem exactly_nil (j : ℕ) : exactly ([] : List R) j = if j = 0 then 1 else 0 := by
  unfold exactly
  by_cases hj : j = 0
  · subst hj
    simp [outcomes, chance]
  · simp [outcomes, hj, Ne.symm hj]

/-- The outcomes that begin with a given result. -/
theorem sum_chance_cons (p : R) (ps : List R) (win : Bool) (os : List (List Bool))
    (f : List Bool → Bool) :
    (((os.map (win :: ·)).filter f).map (chance (p :: ps))).sum =
      (if win then p else 1 - p) * ((os.filter fun o => f (win :: o)).map (chance ps)).sum := by
  induction os with
  | nil => simp
  | cons o os ih =>
    rw [List.map_cons, List.filter_cons, List.filter_cons]
    by_cases hf : f (win :: o) = true
    · rw [if_pos hf, if_pos hf, List.map_cons, List.map_cons, List.sum_cons, List.sum_cons, ih,
        mul_add]
      rfl
    · rw [if_neg hf, if_neg hf, ih]

theorem exactly_cons_zero (p : R) (ps : List R) :
    exactly (p :: ps) 0 = (1 - p) * exactly ps 0 := by
  unfold exactly
  rw [List.length_cons, outcomes, List.filter_append, List.map_append, List.sum_append,
    sum_chance_cons, sum_chance_cons]
  simp

theorem exactly_cons_succ (p : R) (ps : List R) (j : ℕ) :
    exactly (p :: ps) (j + 1) = (1 - p) * exactly ps (j + 1) + p * exactly ps j := by
  unfold exactly
  rw [List.length_cons, outcomes, List.filter_append, List.map_append, List.sum_append,
    sum_chance_cons, sum_chance_cons]
  simp

theorem exactly_eq_zero {ps : List R} {j : ℕ} (h : ps.length < j) : exactly ps j = 0 := by
  induction ps generalizing j with
  | nil =>
    rw [exactly_nil, if_neg]
    rintro rfl
    exact Nat.not_lt_zero _ h
  | cons p ps ih =>
    cases j with
    | zero => exact absurd h (Nat.not_lt_zero _)
    | succ j =>
      rw [List.length_cons] at h
      rw [exactly_cons_succ, ih (by omega), ih (by omega)]
      ring

/-- One more trial at the end. -/
theorem exactly_concat_zero (ps : List R) (p : R) :
    exactly (ps ++ [p]) 0 = exactly ps 0 * (1 - p) := by
  induction ps with
  | nil => rw [List.nil_append, exactly_cons_zero, mul_comm]
  | cons q ps ih =>
    rw [List.cons_append, exactly_cons_zero, exactly_cons_zero, ih]
    ring

theorem exactly_concat_succ (ps : List R) (p : R) (j : ℕ) :
    exactly (ps ++ [p]) (j + 1) = exactly ps (j + 1) * (1 - p) + exactly ps j * p := by
  induction ps generalizing j with
  | nil =>
    rw [List.nil_append, exactly_cons_succ]
    ring
  | cons q ps ih =>
    rw [List.cons_append, exactly_cons_succ, exactly_cons_succ, ih]
    cases j with
    | zero =>
      rw [exactly_concat_zero, exactly_cons_zero]
      ring
    | succ j =>
      rw [ih, exactly_cons_succ]
      ring

theorem atLeast_eq_add {ps : List R} {k : ℕ} (h : k ≤ ps.length) :
    atLeast ps k = exactly ps k + atLeast ps (k + 1) := by
  unfold atLeast
  rw [← Finset.sum_eq_sum_Ico_succ_bot (by omega)]

theorem atLeast_eq_zero {ps : List R} {k : ℕ} (h : ps.length < k) : atLeast ps k = 0 := by
  unfold atLeast
  rw [Finset.Ico_eq_empty (by omega), Finset.sum_empty]

/-- The expectation of a cumulative payout is the sum of its parts, each with the
chance that it is reached. -/
theorem sum_exactly_cumulative (ps : List R) (t : ℕ → R) :
    ∑ j ∈ Finset.range (ps.length + 1), exactly ps j * ∑ k ∈ Finset.range j, t k =
      ∑ k ∈ Finset.range ps.length, t k * atLeast ps (k + 1) := by
  unfold atLeast
  simp only [Finset.mul_sum]
  rw [Finset.sum_sigma', Finset.sum_sigma']
  refine Finset.sum_bij' (fun x _ => ⟨x.2, x.1⟩) (fun x _ => ⟨x.2, x.1⟩) ?_ ?_ ?_ ?_ ?_
  · intro x hx
    simp only [Finset.mem_sigma, Finset.mem_range, Finset.mem_Ico] at hx ⊢
    omega
  · intro x hx
    simp only [Finset.mem_sigma, Finset.mem_range, Finset.mem_Ico] at hx ⊢
    omega
  · intro x _
    rfl
  · intro x _
    rfl
  · intro x _
    exact mul_comm _ _

end Ring

section Ordered

variable [Field R] [LinearOrder R] [IsStrictOrderedRing R] {ps : List R}

/-- Every trial can end either way. -/
def Proper (ps : List R) : Prop := ∀ p ∈ ps, 0 < p ∧ p < 1

theorem exactly_pos (h : Proper ps) {j : ℕ} (hj : j ≤ ps.length) : 0 < exactly ps j := by
  induction ps generalizing j with
  | nil =>
    have hj0 : j = 0 := by simpa using hj
    subst hj0
    simp [exactly_nil]
  | cons p ps ih =>
    obtain ⟨hp0, hp1⟩ := h p (List.mem_cons_self ..)
    have hps : Proper ps := fun q hq => h q (List.mem_cons_of_mem _ hq)
    have hlose : 0 < 1 - p := by linarith
    cases j with
    | zero =>
      rw [exactly_cons_zero]
      exact mul_pos hlose (ih hps (Nat.zero_le _))
    | succ j =>
      rw [List.length_cons] at hj
      rw [exactly_cons_succ]
      have hwin : 0 < p * exactly ps j := mul_pos hp0 (ih hps (by omega))
      by_cases hlast : j + 1 ≤ ps.length
      · exact add_pos (mul_pos hlose (ih hps hlast)) hwin
      · rw [exactly_eq_zero (by omega), mul_zero, zero_add]
        exact hwin

theorem atLeast_pos (h : Proper ps) {k : ℕ} (hk : k ≤ ps.length) : 0 < atLeast ps k := by
  unfold atLeast
  refine Finset.sum_pos (fun j hj => exactly_pos h ?_) ⟨k, ?_⟩
  · rw [Finset.mem_Ico] at hj
    omega
  · rw [Finset.mem_Ico]
    omega

end Ordered

end PoissonBinomial
