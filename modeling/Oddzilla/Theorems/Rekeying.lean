import Oddzilla.Logic.Rekeying

/-!
# Re-keyed markets

`applyNetwinstableKey` looks for a factor between `2 ^ -30` and `2 ^ 30`.  Where the target is
the key at a factor in that range it is met, and every ratio of net wins with it; beyond the
range the walk ends without a bracket.
-/

namespace Oddzilla.Boost

variable {odds out : List ℚ} {t : ℚ}

/-- The ratios of the net wins are the original ones. -/
def KeepsRatios (odds out : List ℚ) : Prop :=
  out.length = odds.length ∧
    ∀ o p o' p', (o, p) ∈ odds.zip out → (o', p') ∈ odds.zip out →
      (p - 1) / (p' - 1) = (o - 1) / (o' - 1)

/-- The bracket holds a factor at which the key is the target. -/
def Bracketed (odds : List ℚ) (t : ℚ) : Prop :=
  bookKey (scaled odds (bracket (netWins odds) t).2) ≤ t ∧
    t ≤ bookKey (scaled odds (bracket (netWins odds) t).1)

/-- The prices are scaled by a factor that is less than `10 ^ -12` off the target's. -/
def MeetsKey (odds : List ℚ) (t : ℚ) (out : List ℚ) : Prop :=
  ∃ a alpha b, 0 < a ∧ a ≤ alpha ∧ alpha ≤ b ∧ b - a < 1 / 10 ^ 12 ∧
    out = scaled odds alpha ∧ bookKey (scaled odds b) ≤ t ∧ t ≤ bookKey (scaled odds a)

/-- The documentation of `applyNetwinstableKey`. -/
structure Rekeyed (odds : List ℚ) (t : ℚ) (out : List ℚ) : Prop where
  ratios : KeepsRatios odds out
  key : out = odds ∧ |bookKey odds - t| < 1 / 10 ^ 9 ∨ Bracketed odds t ∧ MeetsKey odds t out

/-- The targets that the two walks reach. -/
def Reachable (odds : List ℚ) (t : ℚ) : Prop :=
  |bookKey odds - t| < 1 / 10 ^ 9 ∨
    bookKey (scaled odds (2 ^ 30)) ≤ t ∧ t ≤ bookKey (scaled odds (1 / 2 ^ 30))

/-! ## Ratios -/

theorem mem_zip_scaled {alpha o p : ℚ} (h : (o, p) ∈ odds.zip (scaled odds alpha)) :
    p = 1 + alpha * (o - 1) := by
  unfold scaled at h
  rw [← List.map_prod_left_eq_zip] at h
  obtain ⟨o', -, heq⟩ := List.mem_map.mp h
  obtain ⟨rfl, rfl⟩ := Prod.mk.inj heq
  rfl

theorem scaled_ratios (odds : List ℚ) {alpha : ℚ} (hpos : 0 < alpha) :
    KeepsRatios odds (scaled odds alpha) := by
  refine ⟨List.length_map _, fun o p o' p' hp hp' => ?_⟩
  rw [mem_zip_scaled hp, mem_zip_scaled hp', add_sub_cancel_left, add_sub_cancel_left,
    mul_div_mul_left _ _ hpos.ne']

/-! ## The bracket -/

theorem bracketed_iff (h : ∀ o ∈ odds, 1 < o) :
    Bracketed odds t ↔
      bookKey (scaled odds (2 ^ 30)) ≤ t ∧ t ≤ bookKey (scaled odds (1 / 2 ^ 30)) := by
  have hcs := netWins_pos h
  obtain ⟨hlo, hlt, -⟩ := bracket_lt (netWins odds) t
  unfold Bracketed
  rw [bookKey_scaled h (hlo.trans hlt), bookKey_scaled h hlo, bookKey_scaled h (by norm_num),
    bookKey_scaled h (by norm_num)]
  unfold bracket
  split
  · next hlower =>
    -- the lower end is 1 already
    obtain ⟨h2, hle, hend⟩ := growHi_spec (netWins odds) t
    have hhigh : t ≤ keyAt (netWins odds) (1 / 2 ^ 30) :=
      hlower.le.trans (keyAt_antitone hcs (by norm_num) (by norm_num))
    constructor
    · rintro ⟨hkey, -⟩
      exact ⟨(keyAt_antitone hcs (by linarith) hle).trans hkey, hhigh⟩
    · rintro ⟨hkey, -⟩
      refine ⟨?_, hlower.le⟩
      rcases hend with hend | hend
      · exact hend
      · rwa [hend]
  · next hraise =>
    obtain ⟨hge, h2, hend⟩ := shrinkLo_spec (netWins odds) t
    have hlow : keyAt (netWins odds) (2 ^ 30) ≤ t :=
      (keyAt_antitone hcs (by norm_num) (by norm_num)).trans (not_lt.mp hraise)
    constructor
    · rintro ⟨-, hkey⟩
      exact ⟨hlow, hkey.trans (keyAt_antitone hcs (by norm_num) hge)⟩
    · rintro ⟨-, hkey⟩
      refine ⟨not_lt.mp hraise, ?_⟩
      rcases hend with hend | hend
      · exact hend
      · rwa [hend]

/-- The last step of the bisection has the target between the keys of its ends. -/
theorem factor_encloses (h : ∀ o ∈ odds, 1 < o) (hbracket : Bracketed odds t) :
    ∃ a b, (bracket (netWins odds) t).1 ≤ a ∧ a ≤ factor (netWins odds) t ∧
      factor (netWins odds) t ≤ b ∧ b - a < 1 / 10 ^ 12 ∧
      keyAt (netWins odds) b ≤ t ∧ t ≤ keyAt (netWins odds) a := by
  obtain ⟨hlo, hlt, -⟩ := bracket_lt (netWins odds) t
  unfold Bracketed at hbracket
  rw [bookKey_scaled h (hlo.trans hlt), bookKey_scaled h hlo] at hbracket
  obtain ⟨a, b, hla, -, hwidth, hb, ha, hfa, hfb⟩ :=
    Bisection.bisect_encloses (n := 80) (w := 1 / 10 ^ 12) hlt.le hbracket.2 hbracket.1
  rw [← bisect_eq] at hfa hfb
  exact ⟨a, b, hla, hfa, hfb, hwidth ▸ bracket_step _ _, hb, ha⟩

theorem meetsKey_of_bracketed (h : ∀ o ∈ odds, 1 < o) (hbracket : Bracketed odds t) :
    MeetsKey odds t (scaled odds (factor (netWins odds) t)) := by
  obtain ⟨a, b, hlo, ha, hb, hwidth, hkb, hka⟩ := factor_encloses h hbracket
  have hapos : 0 < a := (bracket_lt (netWins odds) t).1.trans_le hlo
  refine ⟨a, factor (netWins odds) t, b, hapos, ha, hb, hwidth, rfl, ?_, ?_⟩
  · rwa [bookKey_scaled h (hapos.trans_le (ha.trans hb))]
  · rwa [bookKey_scaled h hapos]

theorem rekeyed_iff (h : ∀ o ∈ odds, 1 < o) (hpos : 0 < t) (hlen : t < odds.length) :
    Rekeyed odds t (applyNetwinstableKey odds t) ↔ Reachable odds t := by
  unfold Reachable
  rw [← bracketed_iff h, applyNetwinstableKey_eq h hpos hlen]
  by_cases hclose : |bookKey odds - t| < 1 / 10 ^ 9
  · rw [if_pos hclose]
    refine ⟨fun _ => .inl hclose, fun _ => ⟨?_, .inl ⟨rfl, hclose⟩⟩⟩
    have hratios := scaled_ratios odds one_pos
    rwa [scaled_one] at hratios
  · rw [if_neg hclose]
    constructor
    · rintro ⟨-, ⟨-, hkey⟩ | ⟨hbracket, -⟩⟩
      · exact absurd hkey hclose
      · exact .inr hbracket
    · rintro (hkey | hbracket)
      · exact absurd hkey hclose
      · have hratios := scaled_ratios odds (factor_pos (netWins odds) t)
        exact ⟨hratios, .inr ⟨hbracket, meetsKey_of_bracketed h hbracket⟩⟩

/-! ## The key -/

/-- Markets whose key changes by less than `10 ^ -9` over a step of `10 ^ -12`. -/
def Tame (odds : List ℚ) (t : ℚ) : Prop :=
  t < bookKey odds ∧ odds.length ≤ 4000 ∨ (netWins odds).sum ≤ 1000

theorem key_close (h : ∀ o ∈ odds, 1 < o) (hpos : 0 < t) (hlen : t < odds.length)
    (hreach : Reachable odds t) (htame : Tame odds t) :
    |bookKey (applyNetwinstableKey odds t) - t| < 1 / 10 ^ 9 := by
  unfold Reachable at hreach
  rw [← bracketed_iff h] at hreach
  rw [applyNetwinstableKey_eq h hpos hlen]
  split
  · assumption
  next hfar =>
  have hcs := netWins_pos h
  obtain ⟨a, b, hlo, ha, hb, hwidth, hkb, hka⟩ :=
    factor_encloses h (hreach.resolve_left hfar)
  have hapos : 0 < a := (bracket_lt (netWins odds) t).1.trans_le hlo
  have hka' := keyAt_antitone hcs hapos.le ha
  have hkb' := keyAt_antitone hcs (hapos.le.trans ha) hb
  have hdrop : keyAt (netWins odds) a - keyAt (netWins odds) b ≤ (b - a) * 1000 := by
    have hab : a ≤ b := ha.trans hb
    rcases htame with ⟨hlower, hmany⟩ | hsum
    · -- a lower key: the bracket begins at 1
      have ha1 : 1 ≤ a := by
        rw [bookKey_eq_keyAt h] at hlower
        rwa [bracket, if_pos hlower] at hlo
      have hcount : ((netWins odds).length : ℚ) / 4 ≤ 1000 := by
        rw [length_netWins]
        have : (odds.length : ℚ) ≤ 4000 := by exact_mod_cast hmany
        linarith
      exact (keyAt_sub_le_quarter hcs ha1 hab).trans
        (mul_le_mul_of_nonneg_left hcount (sub_nonneg.mpr hab))
    · exact (keyAt_sub_le hcs hapos.le hab).trans
        (mul_le_mul_of_nonneg_left hsum (sub_nonneg.mpr hab))
  rw [bookKey_scaled h (factor_pos _ _), abs_lt]
  constructor <;> linarith

/-! ## A lower key -/

theorem bookKey_le_length (odds : List ℚ) : bookKey odds ≤ odds.length := by
  induction odds with
  | nil => simp [bookKey]
  | cons o odds ih =>
    have hone : (if 1 < o then 1 / o else 0) ≤ 1 := by
      split
      · next ho => exact (div_le_one (one_pos.trans ho)).mpr ho.le
      · exact zero_le_one
    unfold bookKey at ih ⊢
    rw [List.map_cons, List.sum_cons, List.length_cons]
    push_cast
    linarith

/-- The net wins of a market that gets a boost are scaled by at least 1. -/
theorem boostMarketKey_cases (h : ∀ o ∈ odds, 1 < o) (keyDeltaPct : ℚ) :
    (boostMarketKey odds keyDeltaPct).1 = odds ∨
      ∃ alpha, 1 ≤ alpha ∧ (boostMarketKey odds keyDeltaPct).1 = scaled odds alpha := by
  unfold boostMarketKey
  simp only
  split
  · exact .inl rfl
  · next hgive =>
    rw [not_or, not_le, not_le] at hgive
    have hpos : 0 < max (bookKey odds - keyDeltaPct / 100) 1 := one_pos.trans_le (le_max_right _ _)
    rw [applyNetwinstableKey_eq h hpos (hgive.2.trans_le (bookKey_le_length odds))]
    split
    · exact .inl rfl
    · refine .inr ⟨_, one_le_factor ?_, rfl⟩
      rw [← bookKey_eq_keyAt h]
      exact hgive.2

theorem le_boostMarketKey (h : ∀ o ∈ odds, 1 < o) (keyDeltaPct : ℚ) :
    List.Forall₂ (· ≤ ·) odds (boostMarketKey odds keyDeltaPct).1 := by
  rcases boostMarketKey_cases h keyDeltaPct with heq | ⟨alpha, halpha, heq⟩
  · rw [heq]
    exact List.forall₂_refl odds
  · rw [heq]
    unfold scaled
    refine List.forall₂_map_right_iff.mpr (List.forall₂_same.mpr fun o ho => ?_)
    nlinarith [h o ho]

/-- A market takes its target key, with the ratios of its net wins, exactly where the target
is within the walks' reach; a lower key lowers no price. -/
theorem rekeyed_where_reachable {odds : List ℚ} {t : ℚ} (h : ∀ o ∈ odds, 1 < o) (hpos : 0 < t)
    (hlen : t < odds.length) :
    (Rekeyed odds t (applyNetwinstableKey odds t) ↔ Reachable odds t) ∧
      (Reachable odds t → Tame odds t →
        |bookKey (applyNetwinstableKey odds t) - t| < 1 / 10 ^ 9) ∧
      ∀ keyDeltaPct, List.Forall₂ (· ≤ ·) odds (boostMarketKey odds keyDeltaPct).1 :=
  ⟨rekeyed_iff h hpos hlen, key_close h hpos hlen, le_boostMarketKey h⟩

/-- Two prices at 1.90 meet the fair key. -/
theorem pair_rekeyed : Rekeyed [19 / 10, 19 / 10] 1 (applyNetwinstableKey [19 / 10, 19 / 10] 1) :=
  (rekeyed_where_reachable (by decide +kernel) (by norm_num) (by norm_num)).1.mpr
    (.inr (by decide +kernel))

/-- A price of 1.0001 keeps the key at nine times its target. -/
theorem short_price_unbracketed :
    ¬ Rekeyed [10001 / 10000, 2] (1 / 10 ^ 6)
        (applyNetwinstableKey [10001 / 10000, 2] (1 / 10 ^ 6)) ∧
      9 / 10 ^ 6 < bookKey (applyNetwinstableKey [10001 / 10000, 2] (1 / 10 ^ 6)) := by
  refine ⟨fun hrekeyed => ?_, by decide +kernel⟩
  have hfar : ¬ |bookKey [10001 / 10000, 2] - 1 / 10 ^ 6| < 1 / 10 ^ 9 := by decide +kernel
  have hopen : ¬ bookKey (scaled [10001 / 10000, 2]
      (bracket (netWins [10001 / 10000, 2]) (1 / 10 ^ 6)).2) ≤ 1 / 10 ^ 6 := by decide +kernel
  rcases hrekeyed.key with ⟨-, hclose⟩ | ⟨hbracket, -⟩
  · exact hfar hclose
  · exact hopen hbracket.1

end Oddzilla.Boost
