import Mathlib.Algebra.BigOperators.Group.List.Basic
import Mathlib.Algebra.Order.BigOperators.Group.List
import Mathlib.Topology.Algebra.Order.Field
import Mathlib.Topology.Instances.Real.Lemmas
import Mathlib.Topology.Order.IntermediateValue
import Mathlib.Tactic.Positivity
import Mathlib.Tactic.Linarith

/-!
# Scaled net wins

A book of prices `1 + a * c` has the key `∑ 1 / (1 + a * c)`, which falls in the factor
`a`.  So for every key below the number of outcomes there is one factor, and an outcome
that gets likelier while no other does gets no longer price at the same key.
-/

namespace NetWin

variable {K : Type} [Field K]

/-- The key of a book with these net wins, all scaled. -/
def keyAt (cs : List K) (a : K) : K := (cs.map fun c => 1 / (1 + a * c)).sum

variable {cs cs' l₁ l₂ l₁' l₂' : List K} {a a' b c c' t : K}

theorem keyAt_cons (c : K) (cs : List K) : keyAt (c :: cs) a = 1 / (1 + a * c) + keyAt cs a := by
  unfold keyAt
  rw [List.map_cons, List.sum_cons]

theorem keyAt_append (cs cs' : List K) : keyAt (cs ++ cs') a = keyAt cs a + keyAt cs' a := by
  unfold keyAt
  rw [List.map_append, List.sum_append]

variable [LinearOrder K] [IsStrictOrderedRing K]

/-- A longer price takes less of the key. -/
theorem share_le (hc : 0 ≤ a * c) (h : a * c ≤ a' * c') : 1 / (1 + a' * c') ≤ 1 / (1 + a * c) :=
  one_div_le_one_div_of_le (by linarith) (by linarith)

theorem share_lt (hc : 0 ≤ a * c) (h : a * c < a' * c') : 1 / (1 + a' * c') < 1 / (1 + a * c) :=
  one_div_lt_one_div_of_lt (by linarith) (by linarith)

/-- Where no scaled net win gets shorter the key does not rise. -/
theorem keyAt_le (ha : 0 ≤ a) (hcs : ∀ c ∈ cs, 0 < c)
    (h : List.Forall₂ (fun c c' => a * c ≤ a' * c') cs cs') : keyAt cs' a' ≤ keyAt cs a := by
  induction h with
  | nil => exact le_refl _
  | cons hle _ ih =>
    rw [keyAt_cons, keyAt_cons]
    have hc := hcs _ (List.mem_cons_self ..)
    exact add_le_add (share_le (by positivity) hle) (ih fun c hc => hcs c (List.mem_cons_of_mem _ hc))

theorem forall₂_scaled (hcs : ∀ c ∈ cs, 0 < c) (hab : a ≤ b) :
    List.Forall₂ (fun c c' => a * c ≤ b * c') cs cs := by
  induction cs with
  | nil => exact .nil
  | cons c cs ih =>
    refine .cons ?_ (ih fun c hc => hcs c (List.mem_cons_of_mem _ hc))
    exact mul_le_mul_of_nonneg_right hab (hcs c (List.mem_cons_self ..)).le

/-- The key falls in the factor. -/
theorem keyAt_lt (hne : cs ≠ []) (hcs : ∀ c ∈ cs, 0 < c) (ha : 0 ≤ a) (hab : a < b) :
    keyAt cs b < keyAt cs a := by
  cases cs with
  | nil => exact absurd rfl hne
  | cons c cs =>
    rw [keyAt_cons, keyAt_cons]
    have hc := hcs c (List.mem_cons_self ..)
    have hrest := fun c hc => hcs c (List.mem_cons_of_mem _ hc)
    exact add_lt_add_of_lt_of_le (share_lt (by positivity) (mul_lt_mul_of_pos_right hab hc))
      (keyAt_le ha hrest (forall₂_scaled hrest hab.le))

/-- A smaller key has the greater factor. -/
theorem lt_of_keyAt_lt (hcs : ∀ c ∈ cs, 0 < c) (ha : 0 ≤ a) (h : keyAt cs a < keyAt cs b) : b < a := by
  by_contra hle
  exact not_le.mpr h (keyAt_le ha hcs (forall₂_scaled hcs (not_lt.mp hle)))

theorem factor_unique (hne : cs ≠ []) (hcs : ∀ c ∈ cs, 0 < c) (ha : 0 ≤ a) (hb : 0 ≤ b)
    (h : keyAt cs a = keyAt cs b) : a = b := by
  rcases lt_trichotomy a b with hlt | heq | hlt
  · exact absurd h (keyAt_lt hne hcs ha hlt).ne'
  · exact heq
  · exact absurd h (keyAt_lt hne hcs hb hlt).ne

/-- At one key, an outcome whose net win gets no longer while no other's gets shorter is
scaled to no longer a net win. -/
theorem scaled_le (h₁ : List.Forall₂ (· ≤ ·) l₁ l₁') (h₂ : List.Forall₂ (· ≤ ·) l₂ l₂')
    (hcs : ∀ c ∈ l₁ ++ l₂, 0 < c) (hc' : 0 < c') (hc : c' ≤ c) (ha : 0 ≤ a)
    (h : keyAt (l₁' ++ c' :: l₂') a' = keyAt (l₁ ++ c :: l₂) a) : a' * c' ≤ a * c := by
  by_contra hlonger
  have hlt := not_le.mp hlonger
  -- a greater factor lengthens the others too, so the key would fall
  have haa' : a < a' := by
    by_contra hle
    exact hlonger ((mul_le_mul_of_nonneg_right (not_lt.mp hle) hc'.le).trans
      (mul_le_mul_of_nonneg_left hc ha))
  have hothers : ∀ {l l' : List K}, List.Forall₂ (· ≤ ·) l l' → (∀ c ∈ l, 0 < c) →
      List.Forall₂ (fun c c' => a * c ≤ a' * c') l l' := by
    intro l l' hl hpos
    induction hl with
    | nil => exact .nil
    | cons hle _ ih =>
      refine .cons ?_ (ih fun c hc => hpos c (List.mem_cons_of_mem _ hc))
      exact mul_le_mul haa'.le hle (hpos _ (List.mem_cons_self ..)).le (ha.trans haa'.le)
  have hpos₁ := fun c hc => hcs c (List.mem_append_left l₂ hc)
  have hpos₂ := fun c hc => hcs c (List.mem_append_right l₁ hc)
  have hkey₁ := keyAt_le ha hpos₁ (hothers h₁ hpos₁)
  have hkey₂ := keyAt_le ha hpos₂ (hothers h₂ hpos₂)
  have hshare := share_lt (mul_nonneg ha (hc'.le.trans hc)) hlt
  rw [keyAt_append, keyAt_append, keyAt_cons, keyAt_cons] at h
  linarith

/-! ## The factor of a key -/

/-- A factor that pushes the key below a bound. -/
theorem exists_key_lt {cs : List ℝ} {t : ℝ} (hcs : ∀ c ∈ cs, 0 < c) (hne : cs ≠ []) (ht : 0 < t) :
    ∃ a, 0 < a ∧ keyAt cs a < t := by
  have hlength : 0 < (cs.length : ℝ) := by
    exact_mod_cast List.length_pos_iff.mpr hne
  -- large enough that every outcome takes less than its part
  have hbig : ∀ {l : List ℝ}, (∀ c ∈ l, 0 < c) → ∃ a, 0 < a ∧ ∀ c ∈ l, cs.length / t < a * c := by
    intro l hl
    induction l with
    | nil => exact ⟨1, one_pos, by simp⟩
    | cons c l ih =>
      obtain ⟨a, ha, hall⟩ := ih fun c hc => hl c (List.mem_cons_of_mem _ hc)
      have hc := hl c (List.mem_cons_self ..)
      refine ⟨max a ((cs.length / t + 1) / c), lt_max_of_lt_left ha, ?_⟩
      intro x hx
      rcases List.mem_cons.mp hx with rfl | hx
      · have hle := mul_le_mul_of_nonneg_right (le_max_right a ((cs.length / t + 1) / x)) hc.le
        rw [div_mul_cancel₀ _ hc.ne'] at hle
        linarith
      · have hx' := hl x (List.mem_cons_of_mem _ hx)
        exact (hall x hx).trans_le (mul_le_mul_of_nonneg_right (le_max_left ..) hx'.le)
  obtain ⟨a, ha, hall⟩ := hbig hcs
  refine ⟨a, ha, ?_⟩
  have hshare : ∀ c ∈ cs, 1 / (1 + a * c) < t / cs.length := by
    intro c hc
    have hquot : 0 < cs.length / t := div_pos hlength ht
    calc 1 / (1 + a * c) < 1 / (cs.length / t) :=
          one_div_lt_one_div_of_lt hquot (by linarith [hall c hc])
      _ = t / cs.length := one_div_div _ _
  have hsum : keyAt cs a < (cs.map fun _ => t / cs.length).sum :=
    List.sum_lt_sum_of_ne_nil hne _ _ hshare
  rwa [List.map_const', List.sum_replicate, nsmul_eq_mul, mul_div_cancel₀ _ hlength.ne'] at hsum

theorem continuousOn_keyAt {cs : List ℝ} (b : ℝ) (hcs : ∀ c ∈ cs, 0 < c) :
    ContinuousOn (keyAt cs) (Set.Icc 0 b) := by
  induction cs with
  | nil => exact continuousOn_const
  | cons c cs ih =>
    have hc := hcs c (List.mem_cons_self ..)
    have hshare : ContinuousOn (fun a : ℝ => 1 / (1 + a * c)) (Set.Icc 0 b) := by
      refine continuousOn_const.div (by fun_prop) fun a ha => ?_
      have := mul_nonneg ha.1 hc.le
      linarith
    have hsum := hshare.add (ih fun c hc => hcs c (List.mem_cons_of_mem _ hc))
    exact hsum.congr fun a _ => keyAt_cons c cs

/-- For every key below the number of outcomes there is a factor. -/
theorem exists_factor {cs : List ℝ} {t : ℝ} (hcs : ∀ c ∈ cs, 0 < c) (ht : 0 < t)
    (hlt : t < cs.length) : ∃ a, 0 < a ∧ keyAt cs a = t := by
  have hne : cs ≠ [] := by
    rintro rfl
    rw [List.length_nil, Nat.cast_zero] at hlt
    exact lt_asymm ht hlt
  obtain ⟨b, hb, hkey⟩ := exists_key_lt hcs hne ht
  have hcontinuous := continuousOn_keyAt b hcs
  have hzero : keyAt cs 0 = cs.length := by
    unfold keyAt
    simp
  obtain ⟨a, ⟨ha, -⟩, hat⟩ := intermediate_value_Icc' hb.le hcontinuous
    ⟨hkey.le, (hzero ▸ hlt).le⟩
  refine ⟨a, ha.lt_of_ne ?_, hat⟩
  rintro rfl
  exact hlt.ne' (hzero.symm.trans hat)

end NetWin
