import Mathlib.Tactic
import Oddzilla.Lib.Bisection
import Oddzilla.Odds.Netwinstable

/-!
# The factor of a re-keyed market

The key of a market falls as its net wins are scaled up.  The loops of `applyNetwinstableKey`
are the library's: two walks by a factor of two, which end at `2 ^ 30` and at `2 ^ -30` if
they must, and a bisection between them.
-/

namespace Oddzilla.Boost

variable {cs odds : List ℚ} {t a b : ℚ}

/-! ## Scaled prices -/

/-- The prices with `alpha` times the net wins. -/
def scaled (odds : List ℚ) (alpha : ℚ) : List ℚ := odds.map fun o => 1 + alpha * (o - 1)

/-- The net wins of a market. -/
def netWins (odds : List ℚ) : List ℚ := odds.map (· - 1)

theorem netWins_pos (h : ∀ o ∈ odds, 1 < o) : ∀ c ∈ netWins odds, 0 < c := by
  intro c hc
  obtain ⟨o, ho, rfl⟩ := List.mem_map.mp hc
  exact sub_pos.mpr (h o ho)

@[simp] theorem length_netWins : (netWins odds).length = odds.length := List.length_map _

theorem scaled_one : scaled odds 1 = odds := by
  unfold scaled
  simp

theorem one_lt_scaled (h : ∀ o ∈ odds, 1 < o) (ha : 0 < a) : ∀ o ∈ scaled odds a, 1 < o := by
  intro o ho
  obtain ⟨p, hp, rfl⟩ := List.mem_map.mp ho
  linarith [mul_pos ha (sub_pos.mpr (h p hp))]

/-- The key at a factor is the key of the scaled prices. -/
theorem bookKey_scaled (h : ∀ o ∈ odds, 1 < o) (ha : 0 < a) :
    bookKey (scaled odds a) = keyAt (netWins odds) a := by
  unfold bookKey keyAt netWins scaled
  rw [List.map_map, List.map_map]
  refine congrArg List.sum (List.map_congr_left fun o ho => if_pos ?_)
  exact one_lt_scaled h ha _ (List.mem_map_of_mem ho)

theorem bookKey_eq_keyAt (h : ∀ o ∈ odds, 1 < o) : bookKey odds = keyAt (netWins odds) 1 := by
  rw [← bookKey_scaled h one_pos, scaled_one]

/-! ## The key falls -/

theorem keyAt_cons (c : ℚ) : keyAt (c :: cs) a = 1 / (1 + a * c) + keyAt cs a := by
  unfold keyAt
  rw [List.map_cons, List.sum_cons]

/-- One outcome gives up at most its net win for each unit of the factor. -/
theorem inv_sub_inv {c : ℚ} (hc : 0 < c) (ha : 0 ≤ a) (hab : a ≤ b) :
    1 / (1 + a * c) - 1 / (1 + b * c) = (b - a) * (c / ((1 + a * c) * (1 + b * c))) := by
  have hb : 0 ≤ b := ha.trans hab
  have hda : 1 + a * c ≠ 0 := by positivity
  have hdb : 1 + b * c ≠ 0 := by positivity
  field_simp
  ring

theorem keyAt_antitone (hcs : ∀ c ∈ cs, 0 < c) (ha : 0 ≤ a) (hab : a ≤ b) :
    keyAt cs b ≤ keyAt cs a := by
  induction cs with
  | nil => exact le_refl _
  | cons c cs ih =>
    obtain ⟨hc, hcs⟩ := List.forall_mem_cons.mp hcs
    have hb : 0 ≤ b := ha.trans hab
    have hone : 1 / (1 + b * c) ≤ 1 / (1 + a * c) :=
      one_div_le_one_div_of_le (by positivity) (by nlinarith)
    rw [keyAt_cons, keyAt_cons]
    linarith [ih hcs]

/-- The key changes by no more than the sum of the net wins. -/
theorem keyAt_sub_le (hcs : ∀ c ∈ cs, 0 < c) (ha : 0 ≤ a) (hab : a ≤ b) :
    keyAt cs a - keyAt cs b ≤ (b - a) * cs.sum := by
  induction cs with
  | nil => simp [keyAt]
  | cons c cs ih =>
    obtain ⟨hc, hcs⟩ := List.forall_mem_cons.mp hcs
    have hb : 0 ≤ b := ha.trans hab
    have hquot : c / ((1 + a * c) * (1 + b * c)) ≤ c := by
      refine div_le_self hc.le ?_
      nlinarith [mul_nonneg ha hc.le, mul_nonneg hb hc.le,
        mul_nonneg (mul_nonneg ha hc.le) (mul_nonneg hb hc.le)]
    have hone := inv_sub_inv hc ha hab
    have hmul := mul_le_mul_of_nonneg_left hquot (sub_nonneg.mpr hab)
    rw [keyAt_cons, keyAt_cons, List.sum_cons, mul_add]
    linarith [ih hcs]

/-- Above the factor 1 it changes by no more than a quarter for each outcome. -/
theorem keyAt_sub_le_quarter (hcs : ∀ c ∈ cs, 0 < c) (ha : 1 ≤ a) (hab : a ≤ b) :
    keyAt cs a - keyAt cs b ≤ (b - a) * (cs.length / 4) := by
  induction cs with
  | nil => simp [keyAt]
  | cons c cs ih =>
    obtain ⟨hc, hcs⟩ := List.forall_mem_cons.mp hcs
    have hb : 1 ≤ b := ha.trans hab
    have ha0 : 0 ≤ a := zero_le_one.trans ha
    have hquot : c / ((1 + a * c) * (1 + b * c)) ≤ 1 / 4 := by
      have hda : 1 + c ≤ 1 + a * c := by nlinarith
      have hdb : 1 + c ≤ 1 + b * c := by nlinarith
      have hprod : (1 + c) * (1 + c) ≤ (1 + a * c) * (1 + b * c) :=
        mul_le_mul hda hdb (by linarith) (by linarith)
      rw [div_le_div_iff₀ (by nlinarith) (by norm_num)]
      nlinarith [sq_nonneg (1 - c)]
    have hone := inv_sub_inv hc ha0 hab
    have hmul := mul_le_mul_of_nonneg_left hquot (sub_nonneg.mpr hab)
    rw [keyAt_cons, keyAt_cons, List.length_cons]
    push_cast
    linarith [ih hcs]

/-! ## The loops -/

theorem growHi_eq (cs : List ℚ) (t : ℚ) (n : Nat) (hi : ℚ) :
    growHi cs t n hi = Bisection.walk (fun x => t < keyAt cs x ∧ x < 10 ^ 9) 2 n hi := by
  induction n generalizing hi with
  | zero => rfl
  | succ n ih =>
    unfold growHi Bisection.walk
    rw [ih]

theorem shrinkLo_eq (cs : List ℚ) (t : ℚ) (n : Nat) (lo : ℚ) :
    shrinkLo cs t n lo = Bisection.walk (fun x => keyAt cs x < t ∧ 1 / 10 ^ 9 < x)
      (1 / 2) n lo := by
  induction n generalizing lo with
  | zero => rfl
  | succ n ih =>
    unfold shrinkLo Bisection.walk
    rw [ih, mul_one_div]

theorem bisect_eq (cs : List ℚ) (t : ℚ) (n : Nat) (lo hi : ℚ) :
    bisect cs t n lo hi = Bisection.bisect (fun x => t < keyAt cs x) (1 / 10 ^ 12) n lo hi := by
  induction n generalizing lo hi with
  | zero => rfl
  | succ n ih =>
    unfold bisect Bisection.bisect
    simp only [ih]

/-- The walk up ends where the key is low enough, or at `2 ^ 30`. -/
theorem growHi_spec (cs : List ℚ) (t : ℚ) :
    2 ≤ growHi cs t 30 2 ∧ growHi cs t 30 2 ≤ 2 ^ 30 ∧
      (keyAt cs (growHi cs t 30 2) ≤ t ∨ growHi cs t 30 2 = 2 ^ 30) := by
  obtain ⟨j, hj, heq, hgo, hstop⟩ :=
    Bisection.walk_spec (fun x => t < keyAt cs x ∧ x < 10 ^ 9) 2 30 (2 : ℚ)
  rw [growHi_eq, heq]
  have hj29 : j ≤ 29 := by
    by_contra hlt
    have h29 := (hgo 29 (by omega)).2
    norm_num at h29
  have hmono : (2 : ℚ) * 2 ^ j ≤ 2 * 2 ^ 29 := by gcongr; norm_num
  have hone : (1 : ℚ) ≤ 2 ^ j := one_le_pow₀ (by norm_num)
  refine ⟨by linarith, by linarith [hmono], ?_⟩
  by_contra hneither
  rw [not_or, not_le] at hneither
  refine hstop (by omega) ⟨hneither.1, ?_⟩
  have hj28 : j ≤ 28 := by
    by_contra hlt
    obtain rfl : j = 29 := by omega
    exact hneither.2 (by norm_num)
  have hlow : (2 : ℚ) * 2 ^ j ≤ 2 * 2 ^ 28 := by gcongr; norm_num
  linarith

/-- The walk down ends where the key is high enough, or at `2 ^ -30`. -/
theorem shrinkLo_spec (cs : List ℚ) (t : ℚ) :
    1 / 2 ^ 30 ≤ shrinkLo cs t 30 (1 / 2) ∧ shrinkLo cs t 30 (1 / 2) ≤ 1 / 2 ∧
      (t ≤ keyAt cs (shrinkLo cs t 30 (1 / 2)) ∨ shrinkLo cs t 30 (1 / 2) = 1 / 2 ^ 30) := by
  obtain ⟨j, hj, heq, hgo, hstop⟩ :=
    Bisection.walk_spec (fun x => keyAt cs x < t ∧ 1 / 10 ^ 9 < x) (1 / 2) 30 (1 / 2 : ℚ)
  rw [shrinkLo_eq, heq]
  have hj29 : j ≤ 29 := by
    by_contra hlt
    have h29 := (hgo 29 (by omega)).2
    norm_num at h29
  have hmono : (1 / 2 : ℚ) * (1 / 2) ^ 29 ≤ 1 / 2 * (1 / 2) ^ j :=
    mul_le_mul_of_nonneg_left (pow_le_pow_of_le_one (by norm_num) (by norm_num) hj29) (by norm_num)
  have hone : (1 / 2 : ℚ) ^ j ≤ 1 := pow_le_one₀ (by norm_num) (by norm_num)
  refine ⟨by linarith [hmono], by linarith, ?_⟩
  by_contra hneither
  rw [not_or, not_le] at hneither
  refine hstop (by omega) ⟨hneither.1, ?_⟩
  have hj28 : j ≤ 28 := by
    by_contra hlt
    obtain rfl : j = 29 := by omega
    exact hneither.2 (by norm_num)
  have hlow : (1 / 2 : ℚ) * (1 / 2) ^ 28 ≤ 1 / 2 * (1 / 2) ^ j :=
    mul_le_mul_of_nonneg_left (pow_le_pow_of_le_one (by norm_num) (by norm_num) hj28) (by norm_num)
  linarith

/-! ## The bracket -/

/-- Where `applyNetwinstableKey` bisects. -/
def bracket (cs : List ℚ) (keyTarget : ℚ) : ℚ × ℚ :=
  if keyTarget < keyAt cs 1 then (1, growHi cs keyTarget 30 2)
  else (shrinkLo cs keyTarget 30 (1 / 2), 1)

/-- The factor that the bisection ends with. -/
def factor (cs : List ℚ) (keyTarget : ℚ) : ℚ :=
  bisect cs keyTarget 80 (bracket cs keyTarget).1 (bracket cs keyTarget).2

theorem bracket_lt (cs : List ℚ) (t : ℚ) :
    0 < (bracket cs t).1 ∧ (bracket cs t).1 < (bracket cs t).2 ∧ (bracket cs t).2 ≤ 2 ^ 30 := by
  unfold bracket
  split
  · obtain ⟨hlo, hhi, -⟩ := growHi_spec cs t
    exact ⟨one_pos, by linarith, hhi⟩
  · obtain ⟨hlo, hhi, -⟩ := shrinkLo_spec cs t
    refine ⟨lt_of_lt_of_le (by positivity) hlo, by linarith, by norm_num⟩

/-- Eighty halvings are enough for every bracket. -/
theorem bracket_step (cs : List ℚ) (t : ℚ) :
    Bisection.step (1 / 10 ^ 12) 80 ((bracket cs t).2 - (bracket cs t).1) < 1 / 10 ^ 12 := by
  obtain ⟨hpos, -, hle⟩ := bracket_lt cs t
  refine Bisection.step_lt ?_
  calc (bracket cs t).2 - (bracket cs t).1 < 2 ^ 30 := by linarith
    _ ≤ 2 ^ 80 * (1 / 10 ^ 12) := by norm_num

theorem factor_mem (cs : List ℚ) (t : ℚ) :
    (bracket cs t).1 ≤ factor cs t ∧ factor cs t ≤ (bracket cs t).2 := by
  unfold factor
  rw [bisect_eq]
  exact Bisection.bisect_mem (bracket_lt cs t).2.1.le

theorem factor_pos (cs : List ℚ) (t : ℚ) : 0 < factor cs t :=
  (bracket_lt cs t).1.trans_le (factor_mem cs t).1

/-- A lower key is looked for above the factor 1. -/
theorem one_le_factor (h : t < keyAt cs 1) : 1 ≤ factor cs t := by
  have hmem := (factor_mem cs t).1
  rwa [bracket, if_pos h] at hmem

theorem applyNetwinstableKey_eq (h : ∀ o ∈ odds, 1 < o) (hpos : 0 < t) (hlen : t < odds.length) :
    applyNetwinstableKey odds t =
      if |bookKey odds - t| < 1 / 10 ^ 9 then odds
      else scaled odds (factor (netWins odds) t) := by
  have hfilter : odds.filter (1 < ·) = odds :=
    List.filter_eq_self.mpr fun o ho => decide_eq_true (h o ho)
  have hcs : (odds.filter (1 < ·)).map (· - 1) = netWins odds := by rw [hfilter]; rfl
  have hne : netWins odds ≠ [] := by
    intro hnil
    have hzero : odds.length = 0 := by rw [← length_netWins, hnil]; rfl
    rw [hzero, Nat.cast_zero] at hlen
    linarith
  have hadmissible : ¬ (netWins odds = [] ∨ t ≤ 0 ∨ ((netWins odds).length : ℚ) ≤ t) := by
    rw [length_netWins]
    rintro (hnil | hle | hle)
    · exact hne hnil
    · linarith
    · linarith
  unfold applyNetwinstableKey
  simp only [hcs]
  rw [if_neg hadmissible, bookKey_eq_keyAt h]
  refine if_congr Iff.rfl rfl (List.map_congr_left fun o ho => ?_)
  rw [if_pos (h o ho)]
  unfold factor bracket
  split <;> rfl

end Oddzilla.Boost
