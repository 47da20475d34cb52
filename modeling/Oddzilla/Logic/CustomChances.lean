import Oddzilla.Odds.CustomMarket
import Mathlib.Algebra.Order.BigOperators.Group.List
import Mathlib.Tactic.Linarith
import Mathlib.Tactic.FieldSimp
import Mathlib.Tactic.Ring

/-!
# The chances of an authored market

The chances that are priced lie strictly between 0 and 1, whatever the operator and the
money say.  Money on one outcome takes from the share of every other; what the caps and
floors then make of the chances, and where they let another outcome get likelier.
-/

namespace Oddzilla.CustomMarket

variable {K : Type} [Field K] [LinearOrder K] [IsStrictOrderedRing K]

/-! ## Clamping and blending -/

section blend

variable {cfg : LiabilityTradingConfig K} {b m m' t t' v lo hi : K}

omit [Field K] [IsStrictOrderedRing K] in
theorem clamp_eq (h : lo ≤ hi) : clamp v lo hi = max lo (min v hi) := by
  unfold clamp
  by_cases hlo : v < lo
  · rw [if_pos hlo, min_eq_left (hlo.le.trans h), max_eq_left hlo.le]
  · rw [if_neg hlo]
    by_cases hhi : hi < v
    · rw [if_pos hhi, min_eq_right hhi.le, max_eq_right h]
    · rw [if_neg hhi, min_eq_left (not_lt.mp hhi), max_eq_right (not_lt.mp hlo)]

/-- The chance of a bounded blend moves with the blend, and no further. -/
theorem bounded_spec (cfg : LiabilityTradingConfig K) (b : K) (h : t ≤ t') :
    bounded cfg b t ≤ bounded cfg b t' ∧ bounded cfg b t' - bounded cfg b t ≤ t' - t := by
  have hmax : ∀ (lo : K) {x x' : K}, x ≤ x' → x' - x ≤ t' - t →
      max x lo ≤ max x' lo ∧ max x' lo - max x lo ≤ t' - t := by
    intro lo x x' hx hsub
    refine ⟨max_le_max_right lo hx, ?_⟩
    rw [sub_le_iff_le_add]
    refine max_le ?_ ?_
    · linarith [le_max_left x lo]
    · linarith [le_max_right x lo]
  have hmin : ∀ hi : K, min t hi ≤ min t' hi ∧ min t' hi - min t hi ≤ t' - t := by
    intro hi
    refine ⟨min_le_min_right hi h, ?_⟩
    rw [sub_le_iff_le_add', ← sub_le_iff_le_add]
    refine le_min ?_ ?_
    · linarith [min_le_left t' hi]
    · linarith [min_le_right t' hi]
  unfold bounded
  dsimp only
  by_cases hcap : 0 < max 0 cfg.maxShiftBp / 10000
  · rw [if_pos hcap, if_pos hcap, clamp_eq (by linarith), clamp_eq (by linarith)]
    generalize max 0 cfg.maxShiftBp / 10000 = cap
    have hclamped := hmax (b - cap) (hmin (b + cap)).1 (hmin (b + cap)).2
    rw [max_comm, max_comm (min t' _)] at hclamped
    exact hmax _ hclamped.1 hclamped.2
  · rw [if_neg hcap, if_neg hcap]
    exact hmax _ h le_rfl

omit [IsStrictOrderedRing K] in
theorem floor_le_bounded (cfg : LiabilityTradingConfig K) (b t : K) :
    ((MIN_CUSTOM_PROBABILITY : ℚ) : K) ≤ bounded cfg b t := le_max_right _ _

theorem floor_pos : (0 : K) < ((MIN_CUSTOM_PROBABILITY : ℚ) : K) :=
  Rat.cast_pos.mpr (by norm_num [MIN_CUSTOM_PROBABILITY])

theorem floor_lt_one : ((MIN_CUSTOM_PROBABILITY : ℚ) : K) < 1 := by
  have h : ((MIN_CUSTOM_PROBABILITY : ℚ) : K) < ((1 : ℚ) : K) :=
    Rat.cast_lt.mpr (by norm_num [MIN_CUSTOM_PROBABILITY])
  rwa [Rat.cast_one] at h

/-- A base above the floor is within its own bounds. -/
theorem bounded_base (h : ((MIN_CUSTOM_PROBABILITY : ℚ) : K) ≤ b) : bounded cfg b b = b := by
  have hclamp : ∀ cap : K, 0 < cap → clamp b (b - cap) (b + cap) = b := by
    intro cap hcap
    unfold clamp
    rw [if_neg (by linarith), if_neg (by linarith)]
  unfold bounded
  dsimp only
  split
  · next hcap => rw [hclamp _ hcap, max_eq_left h]
  · exact max_eq_left h

omit [IsStrictOrderedRing K] in
theorem blend_self : blend cfg b b = b := by
  unfold blend
  ring

theorem blend_mono (h : m ≤ m') : blend cfg b m ≤ blend cfg b m' := by
  have hk : 0 ≤ clamp (cfg.strengthBp / 10000) 0 1 := by
    rw [clamp_eq zero_le_one]
    exact le_max_left _ _
  unfold blend
  exact add_le_add_right (mul_le_mul_of_nonneg_left h hk) _

end blend

/-! ## Chances that sum to one -/

section sums

variable {α : Type} {l l₁ l₂ : List α} {f f' : α → K} {x x' : α}

theorem mem_of_mem_rest (hx : x ∈ l₁ ++ l₂) (y : α) : x ∈ l₁ ++ y :: l₂ := by
  rw [List.mem_append] at hx ⊢
  exact hx.imp_right (List.mem_cons_of_mem _)

theorem mem_own (l₁ l₂ : List α) (x : α) : x ∈ l₁ ++ x :: l₂ :=
  List.mem_append_right _ (List.mem_cons_self ..)

omit [LinearOrder K] [IsStrictOrderedRing K] in
theorem sum_map_div (l : List α) (f : α → K) (S : K) :
    (l.map fun x => f x / S).sum = (l.map f).sum / S := by
  induction l with
  | nil => simp
  | cons x l ih => rw [List.map_cons, List.map_cons, List.sum_cons, List.sum_cons, ih, add_div]

omit [LinearOrder K] [IsStrictOrderedRing K] in
/-- One term of a sum, and the others. -/
theorem sum_split (f : α → K) (l₁ l₂ : List α) (x : α) :
    ((l₁ ++ x :: l₂).map f).sum = f x + ((l₁ ++ l₂).map f).sum := by
  simp only [List.map_append, List.map_cons, List.sum_append, List.sum_cons]
  ring

theorem sum_pos (hne : l ≠ []) (h : ∀ x ∈ l, 0 < f x) : 0 < (l.map f).sum := by
  obtain ⟨x, hx⟩ := List.exists_mem_of_ne_nil l hne
  refine lt_of_lt_of_le (h x hx) (List.single_le_sum ?_ _ (List.mem_map_of_mem hx))
  intro y hy
  obtain ⟨z, hz, rfl⟩ := List.mem_map.mp hy
  exact (h z hz).le

/-- Of two positive terms or more, each is less than the sum. -/
theorem lt_sum (hlength : 2 ≤ l.length) (h : ∀ x ∈ l, 0 < f x) (hx : x ∈ l) :
    f x < (l.map f).sum := by
  obtain ⟨l₁, l₂, rfl⟩ := List.append_of_mem hx
  rw [List.length_append, List.length_cons] at hlength
  have hne : l₁ ++ l₂ ≠ [] := by
    rw [← List.length_pos_iff, List.length_append]
    omega
  have hrest : 0 < ((l₁ ++ l₂).map f).sum := by
    exact sum_pos hne fun y hy => h y (mem_of_mem_rest hy x)
  rw [sum_split]
  linarith

theorem shares_spec (hlength : 2 ≤ l.length) (h : ∀ x ∈ l, 0 < f x) :
    (l.map fun x => f x / (l.map f).sum).sum = 1 ∧
      ∀ x ∈ l, 0 < f x / (l.map f).sum ∧ f x / (l.map f).sum < 1 := by
  have hne : l ≠ [] := by
    rintro rfl
    rw [List.length_nil] at hlength
    omega
  have hsum := sum_pos hne h
  refine ⟨?_, fun x hx => ⟨div_pos (h x hx) hsum, (div_lt_one hsum).mpr (lt_sum hlength h hx)⟩⟩
  rw [sum_map_div, div_self hsum.ne']

/-- A term that grows while the others do not gets a greater share. -/
theorem share_le_share (h : ∀ y ∈ l₁ ++ l₂, 0 < f' y ∧ f' y ≤ f y) (hx : 0 < f x)
    (hle : f x ≤ f' x') : f x / ((l₁ ++ x :: l₂).map f).sum ≤
      f' x' / ((l₁ ++ x' :: l₂).map f').sum := by
  have hrest : ((l₁ ++ l₂).map f').sum ≤ ((l₁ ++ l₂).map f).sum :=
    List.sum_le_sum fun y hy => (h y hy).2
  have hnonneg : 0 ≤ ((l₁ ++ l₂).map f').sum := by
    refine List.sum_nonneg fun y hy => ?_
    obtain ⟨z, hz, rfl⟩ := List.mem_map.mp hy
    exact (h z hz).1.le
  rw [sum_split, sum_split, div_le_div_iff₀ (by linarith) (by linarith)]
  nlinarith

end sums

/-! ## What is priced -/

section priced

variable {os : List (CustomOutcomeInput K)} {liability : Option (LiabilityTradingConfig K)}
  {cfg : LiabilityTradingConfig K} {o : CustomOutcomeInput K}

theorem base_spec (hlength : 2 ≤ os.length) (h : ∀ o ∈ os, 0 < o.baseProbability) :
    (os.map (base os)).sum = 1 ∧ ∀ o ∈ os, 0 < base os o ∧ base os o < 1 := shares_spec hlength h

theorem blended_pos (cfg : LiabilityTradingConfig K) (o : CustomOutcomeInput K) :
    0 < blended os cfg o := floor_pos.trans_le (floor_le_bounded ..)

theorem priced_spec (hlength : 2 ≤ os.length) (h : ∀ o ∈ os, 0 < o.baseProbability) :
    (os.map (priced os liability)).sum = 1 ∧
      ∀ o ∈ os, 0 < priced os liability o ∧ priced os liability o < 1 := by
  unfold priced
  cases trading os liability with
  | none => exact base_spec hlength h
  | some cfg => exact shares_spec hlength fun o _ => blended_pos cfg o

theorem probability_spec (liability : Option (LiabilityTradingConfig K)) (hlength : 2 ≤ os.length)
    (h : ∀ o ∈ os, 0 < o.baseProbability) :
    ∀ p ∈ os.map (probability os liability), 0 < p ∧ p < 1 := by
  intro p hp
  obtain ⟨o, ho, rfl⟩ := List.mem_map.mp hp
  obtain ⟨hpos, hlt⟩ := (priced_spec hlength h).2 o ho
  exact ⟨hpos.trans_le (le_max_left ..), max_lt hlt floor_lt_one⟩

end priced

/-! ## Money on one outcome -/

/-- The outcome with so much owed on it. -/
def raise (o : CustomOutcomeInput K) (e : K) : CustomOutcomeInput K :=
  { o with exposureMicro := some e }

/-- An outcome's share of the money; with no money at all, its chance. -/
def share (os : List (CustomOutcomeInput K)) (o : CustomOutcomeInput K) : K :=
  if 0 < exposureSum os then exposure o / exposureSum os else base os o

/-- The blend of an outcome before the bounds. -/
def wanted (cfg : LiabilityTradingConfig K) (os : List (CustomOutcomeInput K))
    (o : CustomOutcomeInput K) : K := blend cfg (base os o) (share os o)

def weight (cfg : LiabilityTradingConfig K) (os : List (CustomOutcomeInput K))
    (o : CustomOutcomeInput K) : K := bounded cfg (base os o) (wanted cfg os o)

/-- Trading has begun, or would begin without lifting any outcome to the floor. -/
def Settled (os : List (CustomOutcomeInput K)) : Prop :=
  0 < exposureSum os ∨ ∀ o ∈ os, ((MIN_CUSTOM_PROBABILITY : ℚ) : K) ≤ base os o

/-- Trading is on. -/
def Trades (liability : Option (LiabilityTradingConfig K)) (cfg : LiabilityTradingConfig K) :
    Prop :=
  liability = some cfg ∧ cfg.enabled = true ∧ 0 < cfg.strengthBp

section raised

variable {pre post os : List (CustomOutcomeInput K)} {o x : CustomOutcomeInput K} {e : K}
  {liability : Option (LiabilityTradingConfig K)} {cfg : LiabilityTradingConfig K}

omit [LinearOrder K] [IsStrictOrderedRing K] in
theorem base_raise (x : CustomOutcomeInput K) :
    base (pre ++ raise o e :: post) x = base (pre ++ o :: post) x := by
  unfold base
  rw [sum_split, sum_split]
  rfl

omit [IsStrictOrderedRing K] in
theorem exposure_nonneg (o : CustomOutcomeInput K) : 0 ≤ exposure o := le_max_left _ _

theorem exposureSum_nonneg (os : List (CustomOutcomeInput K)) : 0 ≤ exposureSum os := by
  refine List.sum_nonneg fun y hy => ?_
  obtain ⟨o, -, rfl⟩ := List.mem_map.mp hy
  exact exposure_nonneg o

theorem exposure_le_sum (h : o ∈ os) : exposure o ≤ exposureSum os := by
  refine List.single_le_sum (fun y hy => ?_) _ (List.mem_map_of_mem h)
  obtain ⟨z, -, rfl⟩ := List.mem_map.mp hy
  exact exposure_nonneg z

omit [IsStrictOrderedRing K] in
theorem exposure_raise (h : o.exposureMicro.getD 0 ≤ e) : exposure o ≤ exposure (raise o e) :=
  max_le_max_left 0 h

omit [IsStrictOrderedRing K] in
theorem exposureSum_split (pre post : List (CustomOutcomeInput K)) (o : CustomOutcomeInput K) :
    exposureSum (pre ++ o :: post) = exposure o + exposureSum (pre ++ post) := sum_split exposure ..

theorem exposureSum_raise (h : o.exposureMicro.getD 0 ≤ e) :
    exposureSum (pre ++ o :: post) ≤ exposureSum (pre ++ raise o e :: post) := by
  rw [exposureSum_split, exposureSum_split]
  exact add_le_add_left (exposure_raise h) _

theorem sum_share (hlength : 2 ≤ os.length) (h : ∀ o ∈ os, 0 < o.baseProbability) :
    (os.map (share os)).sum = 1 := by
  unfold share
  split
  · next hpos =>
    rw [sum_map_div]
    exact div_self hpos.ne'
  · exact (base_spec hlength h).1

/-- Money on one outcome takes from the share of every other. -/
theorem share_raise_le (h : o.exposureMicro.getD 0 ≤ e) (hx : x ∈ pre ++ post)
    (hbase : 0 ≤ base (pre ++ o :: post) x) :
    share (pre ++ raise o e :: post) x ≤ share (pre ++ o :: post) x := by
  have hsum : exposureSum (pre ++ o :: post) ≤ exposureSum (pre ++ raise o e :: post) :=
    exposureSum_raise h
  have hmem := mem_of_mem_rest hx o
  unfold share
  by_cases hpos : 0 < exposureSum (pre ++ o :: post)
  · rw [if_pos hpos, if_pos (hpos.trans_le hsum)]
    exact div_le_div_of_nonneg_left (exposure_nonneg x) hpos hsum
  · rw [if_neg hpos, base_raise]
    have hzero : exposure x = 0 :=
      le_antisymm ((exposure_le_sum hmem).trans (not_lt.mp hpos)) (exposure_nonneg x)
    split
    · rw [hzero, zero_div]
      exact hbase
    · exact le_rfl

/-- And adds to its own. -/
theorem share_le_raise (h : o.exposureMicro.getD 0 ≤ e) (hbase : base (pre ++ o :: post) o ≤ 1) :
    share (pre ++ o :: post) o ≤ share (pre ++ raise o e :: post) (raise o e) := by
  have hsum : exposureSum (pre ++ o :: post) ≤ exposureSum (pre ++ raise o e :: post) :=
    exposureSum_raise h
  have hraise := exposure_raise h
  have hrest := exposureSum_nonneg (pre ++ post)
  unfold share
  by_cases hpos : 0 < exposureSum (pre ++ o :: post)
  · have hpos' := hpos.trans_le hsum
    rw [if_pos hpos, if_pos hpos', div_le_div_iff₀ hpos hpos', exposureSum_split, exposureSum_split]
    nlinarith
  · rw [if_neg hpos, base_raise]
    split
    · next hpos' =>
      have hzero : exposureSum (pre ++ post) = 0 := by
        rw [exposureSum_split] at hpos
        linarith [exposure_nonneg o]
      rw [exposureSum_split, hzero, add_zero] at hpos' ⊢
      rw [div_self hpos'.ne']
      exact hbase
    · exact le_rfl

/-- The priced chances are the shares of the weights. -/
theorem priced_eq (hlength : 2 ≤ os.length) (h : ∀ o ∈ os, 0 < o.baseProbability)
    (htrades : Trades liability cfg) (hsettled : Settled os) (ho : o ∈ os) :
    priced os liability o = weight cfg os o / (os.map (weight cfg os)).sum := by
  obtain ⟨rfl, henabled, hstrength⟩ := htrades
  by_cases hpos : 0 < exposureSum os
  · have htrading : trading os (some cfg) = some cfg := by
      unfold trading
      simp [henabled, hstrength, hpos]
    have hweight : weight cfg os = blended os cfg := by
      funext x
      unfold weight wanted share blended
      rw [if_pos hpos]
    unfold priced
    rw [htrading, hweight]
  · have htrading : trading os (some cfg) = none := by
      unfold trading
      simp [hpos]
    have hweight : ∀ x ∈ os, weight cfg os x = base os x := by
      intro x hx
      unfold weight wanted share
      rw [if_neg hpos, blend_self, bounded_base (hsettled.resolve_left hpos x hx)]
    unfold priced
    rw [htrading, hweight o ho, List.map_congr_left hweight, (base_spec hlength h).1, div_one]

omit [IsStrictOrderedRing K] in
/-- Without trading nothing depends on the money. -/
theorem priced_idle (h : ∀ cfg, ¬ Trades liability cfg) : priced os liability = base os := by
  have htrading : trading os liability = none := by
    unfold trading
    rw [Option.filter_eq_none_iff]
    intro cfg hcfg hon
    simp only [Bool.and_eq_true, decide_eq_true_eq] at hon
    exact h cfg ⟨hcfg, hon.1.1, hon.1.2⟩
  unfold priced
  rw [htrading]

/-- The outcome's own blend is not lifted by a bound before, nor held down by one after. -/
def Uncut (cfg : LiabilityTradingConfig K) (pre post : List (CustomOutcomeInput K))
    (o : CustomOutcomeInput K) (e : K) : Prop :=
  weight cfg (pre ++ o :: post) o ≤ wanted cfg (pre ++ o :: post) o ∧
    wanted cfg (pre ++ raise o e :: post) (raise o e) ≤
      weight cfg (pre ++ raise o e :: post) (raise o e)

section

variable (hlength : 2 ≤ (pre ++ o :: post).length)
  (hpos : ∀ x ∈ pre ++ o :: post, 0 < x.baseProbability) (he : o.exposureMicro.getD 0 ≤ e)

omit [IsStrictOrderedRing K] in
include hpos in
theorem raise_pos : ∀ x ∈ pre ++ raise o e :: post, 0 < x.baseProbability := by
  intro x hx
  rcases List.mem_append.mp hx with hx | hx
  · exact hpos x (List.mem_append_left _ hx)
  · rcases List.mem_cons.mp hx with rfl | hx
    · exact hpos o (mem_own ..)
    · exact hpos x (mem_of_mem_rest (List.mem_append_right _ hx) o)

omit [Field K] [LinearOrder K] [IsStrictOrderedRing K] in
include hlength in
theorem raise_length : 2 ≤ (pre ++ raise o e :: post).length := by
  rw [List.length_append, List.length_cons] at hlength ⊢
  exact hlength

include he in
theorem Settled.raise (h : Settled (pre ++ o :: post)) : Settled (pre ++ raise o e :: post) := by
  refine h.imp (fun h => h.trans_le (exposureSum_raise he)) fun h x hx => ?_
  rw [base_raise]
  rcases List.mem_append.mp hx with hx | hx
  · exact h x (List.mem_append_left _ hx)
  · rcases List.mem_cons.mp hx with rfl | hx
    · exact h o (mem_own ..)
    · exact h x (mem_of_mem_rest (List.mem_append_right _ hx) o)

include hlength hpos he

/-- The blends: the outcome's own rises, every other falls. -/
theorem wanted_raise (cfg : LiabilityTradingConfig K) :
    wanted cfg (pre ++ o :: post) o ≤ wanted cfg (pre ++ raise o e :: post) (raise o e) ∧
    ∀ x ∈ pre ++ post,
      wanted cfg (pre ++ raise o e :: post) x ≤ wanted cfg (pre ++ o :: post) x := by
  obtain ⟨-, hbase⟩ := base_spec hlength hpos
  unfold wanted
  constructor
  · rw [base_raise]
    exact blend_mono (share_le_raise he (hbase o (mem_own ..)).2.le)
  · intro x hx
    rw [base_raise]
    exact blend_mono (share_raise_le he hx (hbase x (mem_of_mem_rest hx o)).1.le)

theorem weight_raise (cfg : LiabilityTradingConfig K) :
    weight cfg (pre ++ o :: post) o ≤ weight cfg (pre ++ raise o e :: post) (raise o e) ∧
    ∀ x ∈ pre ++ post, weight cfg (pre ++ raise o e :: post) x ≤ weight cfg (pre ++ o :: post) x ∧
      weight cfg (pre ++ o :: post) x - weight cfg (pre ++ raise o e :: post) x ≤
        wanted cfg (pre ++ o :: post) x - wanted cfg (pre ++ raise o e :: post) x := by
  obtain ⟨hown, hothers⟩ := wanted_raise hlength hpos he cfg
  unfold weight
  simp only [base_raise]
  exact ⟨(bounded_spec cfg _ hown).1, fun x hx => bounded_spec cfg _ (hothers x hx)⟩

/-- Where the outcome's own blend is not cut, the weights do not lose what it gains. -/
theorem sum_weight_le (huncut : Uncut cfg pre post o e) :
    ((pre ++ o :: post).map (weight cfg (pre ++ o :: post))).sum ≤
      ((pre ++ raise o e :: post).map (weight cfg (pre ++ raise o e :: post))).sum := by
  have hsum : ∀ {os : List (CustomOutcomeInput K)}, 2 ≤ os.length →
      (∀ x ∈ os, 0 < x.baseProbability) → (os.map (wanted cfg os)).sum = 1 := by
    intro os hlength hpos
    unfold wanted blend
    rw [List.sum_map_add, List.sum_map_mul_left, List.sum_map_mul_left,
      sum_share hlength hpos]
    have hbase : (os.map fun x => base os x).sum = 1 := (base_spec hlength hpos).1
    rw [hbase]
    ring
  have hbefore := hsum hlength hpos
  have hafter := hsum (raise_length (e := e) hlength) (raise_pos (e := e) hpos)
  have hothers : ((pre ++ post).map fun x => weight cfg (pre ++ o :: post) x +
        wanted cfg (pre ++ raise o e :: post) x).sum ≤
      ((pre ++ post).map fun x => wanted cfg (pre ++ o :: post) x +
        weight cfg (pre ++ raise o e :: post) x).sum := by
    refine List.sum_le_sum fun x hx => ?_
    have := ((weight_raise hlength hpos he cfg).2 x hx).2
    linarith
  rw [List.sum_map_add, List.sum_map_add] at hothers
  obtain ⟨hlow, hhigh⟩ := huncut
  rw [sum_split] at hbefore hafter ⊢
  rw [sum_split]
  linarith

/-- The chance of the outcome does not fall. -/
theorem priced_own_le (hsettled : Settled (pre ++ o :: post)) :
    priced (pre ++ o :: post) liability o ≤
      priced (pre ++ raise o e :: post) liability (raise o e) := by
  by_cases htrades : ∃ cfg, Trades liability cfg
  · obtain ⟨cfg, htrades⟩ := htrades
    obtain ⟨hown, hothers⟩ := weight_raise hlength hpos he cfg
    rw [priced_eq hlength hpos htrades hsettled (mem_own ..),
      priced_eq (raise_length hlength) (raise_pos hpos) htrades (hsettled.raise he) (mem_own ..)]
    refine share_le_share (fun y hy => ⟨?_, (hothers y hy).1⟩) ?_ hown
    · exact floor_pos.trans_le (floor_le_bounded ..)
    · exact floor_pos.trans_le (floor_le_bounded ..)
  · rw [priced_idle (not_exists.mp htrades), priced_idle (not_exists.mp htrades), base_raise]
    exact le_rfl

/-- Nor does another's rise, of two outcomes or where the own blend is not cut. -/
theorem priced_other_le (hsettled : Settled (pre ++ o :: post))
    (h : (pre ++ o :: post).length = 2 ∨ ∀ cfg, Trades liability cfg → Uncut cfg pre post o e)
    (hx : x ∈ pre ++ post) :
    priced (pre ++ raise o e :: post) liability x ≤ priced (pre ++ o :: post) liability x := by
  rcases h with htwo | huncut
  · -- the chances of two outcomes make up one
    have hone : pre ++ post = [x] := by
      have hlen : (pre ++ post).length = 1 := by
        rw [List.length_append, List.length_cons] at htwo
        rw [List.length_append]
        omega
      obtain ⟨y, hy⟩ := List.length_eq_one_iff.mp hlen
      rw [hy, List.mem_singleton] at hx
      rw [hy, hx]
    have hsum : ((pre ++ o :: post).map (priced (pre ++ o :: post) liability)).sum = 1 :=
      (priced_spec hlength hpos).1
    have hsum' : ((pre ++ raise o e :: post).map
        (priced (pre ++ raise o e :: post) liability)).sum = 1 :=
      (priced_spec (raise_length hlength) (raise_pos hpos)).1
    rw [sum_split, hone, List.map_singleton, List.sum_singleton] at hsum hsum'
    have hown : priced (pre ++ o :: post) liability o ≤
        priced (pre ++ raise o e :: post) liability (raise o e) :=
      priced_own_le hlength hpos he hsettled
    linarith
  · by_cases htrades : ∃ cfg, Trades liability cfg
    · obtain ⟨cfg, htrades⟩ := htrades
      rw [priced_eq hlength hpos htrades hsettled (mem_of_mem_rest hx o),
        priced_eq (raise_length hlength) (raise_pos hpos) htrades (hsettled.raise he)
          (mem_of_mem_rest hx _)]
      have hweight : ∀ os : List (CustomOutcomeInput K), ∀ y, 0 < weight cfg os y := fun os y =>
        floor_pos.trans_le (floor_le_bounded ..)
      refine div_le_div₀ (hweight _ x).le ((weight_raise hlength hpos he cfg).2 x hx).1
        (sum_pos (List.ne_nil_of_mem (mem_own ..)) fun y _ => hweight _ y) ?_
      exact sum_weight_le hlength hpos he (huncut cfg htrades)
    · rw [priced_idle (not_exists.mp htrades), priced_idle (not_exists.mp htrades), base_raise]

end

end raised

end Oddzilla.CustomMarket
