import Oddzilla.Lib.NetWin
import Oddzilla.Logic.CustomLadder
import Oddzilla.Logic.CustomChances

/-!
# Authored prices

The key put on a book is solved exactly.  A published price is then above 1 when the
keyed price is at least 1.0001, and above the keyed price by the nudge of the ladder at
most; the book keeps its key as long as there is a factor for it; and money on an
outcome shortens its price unless the caps and floors make another outcome likelier.
-/

namespace Oddzilla.CustomMarket

open NetWin

/-! ## The exact key -/

open Classical in
/-- The factor at which the book has the key. -/
noncomputable def factor (cs : List ℝ) (t : ℝ) : ℝ :=
  if h : ∃ a, 0 < a ∧ keyAt cs a = t then h.choose else 1

/-- `applyNetwinstableKey`, solved exactly. -/
noncomputable def exactKey (odds : List ℝ) (target : ℝ) : List ℝ :=
  let cs := (odds.filter fun o => decide (1 < o)).map (· - 1)
  if cs = [] ∨ target ≤ 0 ∨ (cs.length : ℝ) ≤ target then odds
  else odds.map fun o => if 1 < o then 1 + factor cs target * (o - 1) else o

theorem factor_spec {cs : List ℝ} {t : ℝ} (hcs : ∀ c ∈ cs, 0 < c) (ht : 0 < t)
    (hlt : t < cs.length) : 0 < factor cs t ∧ keyAt cs (factor cs t) = t := by
  have h := exists_factor hcs ht hlt
  unfold factor
  rw [dif_pos h]
  exact h.choose_spec

/-- The net wins of the fair prices of these chances. -/
noncomputable def netWins (ps : List ℝ) : List ℝ := ps.map fun p => 1 / p - 1

/-- The keyed price of a chance in a book of chances. -/
noncomputable def keyedPrice (ps : List ℝ) (target p : ℝ) : ℝ :=
  if (ps.length : ℝ) ≤ target then 1 / p else 1 + factor (netWins ps) target * (1 / p - 1)

variable {ps : List ℝ} {target p : ℝ}

theorem netWin_pos (h : 0 < p ∧ p < 1) : 0 < 1 / p - 1 := by
  have := one_lt_one_div h.1 h.2
  linarith

theorem netWins_pos (h : ∀ p ∈ ps, 0 < p ∧ p < 1) : ∀ c ∈ netWins ps, 0 < c := by
  intro c hc
  obtain ⟨p, hp, rfl⟩ := List.mem_map.mp hc
  exact netWin_pos (h p hp)

theorem exactKey_eq (hne : ps ≠ []) (h : ∀ p ∈ ps, 0 < p ∧ p < 1) (ht : 0 < target) :
    exactKey (ps.map fun p => 1 / p) target = ps.map (keyedPrice ps target) := by
  have hfair : ∀ o ∈ ps.map fun p => 1 / p, 1 < o := by
    intro o ho
    obtain ⟨p, hp, rfl⟩ := List.mem_map.mp ho
    exact one_lt_one_div (h p hp).1 (h p hp).2
  have hcs : ((ps.map fun p => 1 / p).filter fun o => decide (1 < o)).map (· - 1) = netWins ps := by
    rw [List.filter_eq_self.mpr fun o ho => decide_eq_true (hfair o ho), List.map_map]
    rfl
  have hnil : netWins ps ≠ [] := by
    unfold netWins
    rwa [Ne, List.map_eq_nil_iff]
  have hlength : (netWins ps).length = ps.length := List.length_map ..
  unfold exactKey
  dsimp only
  rw [hcs, hlength]
  by_cases hle : (ps.length : ℝ) ≤ target
  · rw [if_pos (.inr (.inr hle))]
    refine List.map_congr_left fun p _ => ?_
    unfold keyedPrice
    rw [if_pos hle]
  · rw [if_neg (by simp only [hnil, not_le.mpr ht, hle, or_self, not_false_eq_true]), List.map_map]
    refine List.map_congr_left fun p hp => ?_
    unfold keyedPrice
    rw [Function.comp_apply, if_pos (hfair _ (List.mem_map_of_mem hp)), if_neg hle]

theorem one_lt_keyedPrice (h : ∀ p ∈ ps, 0 < p ∧ p < 1) (ht : 0 < target) (hp : p ∈ ps) :
    1 < keyedPrice ps target p := by
  unfold keyedPrice
  split
  · exact one_lt_one_div (h p hp).1 (h p hp).2
  · next hlt =>
    have hlength : (netWins ps).length = ps.length := List.length_map ..
    have hfactor := (factor_spec (netWins_pos h) ht (hlength ▸ not_le.mp hlt)).1
    have := mul_pos hfactor (netWin_pos (h p hp))
    linarith

/-- The keyed book has the key. -/
theorem keyed_key (h : ∀ p ∈ ps, 0 < p ∧ p < 1) (ht : 0 < target) (hlt : target < ps.length) :
    (ps.map fun p => 1 / keyedPrice ps target p).sum = target := by
  have hlength : (netWins ps).length = ps.length := List.length_map ..
  have hkey := (factor_spec (netWins_pos h) ht (hlength ▸ hlt)).2
  unfold keyAt at hkey
  rw [netWins, List.map_map] at hkey
  conv_rhs => rw [← hkey]
  congr 1
  refine List.map_congr_left fun p _ => ?_
  unfold keyedPrice
  rw [if_neg (not_le.mpr hlt)]
  rfl

/-- A chance that gets likelier while no other does is keyed no longer. -/
theorem keyedPrice_le {l₁ l₂ l₁' l₂' : List ℝ} {p' : ℝ}
    (h : ∀ x ∈ l₁ ++ p :: l₂, 0 < x ∧ x < 1) (h' : ∀ x ∈ l₁' ++ p' :: l₂', 0 < x ∧ x < 1)
    (h₁ : List.Forall₂ (fun x x' => x' ≤ x) l₁ l₁') (h₂ : List.Forall₂ (fun x x' => x' ≤ x) l₂ l₂')
    (ht : 0 < target) (hle : p ≤ p') :
    keyedPrice (l₁' ++ p' :: l₂') target p' ≤ keyedPrice (l₁ ++ p :: l₂) target p := by
  have hmem : p ∈ l₁ ++ p :: l₂ := List.mem_append_right _ (List.mem_cons_self ..)
  have hmem' : p' ∈ l₁' ++ p' :: l₂' := List.mem_append_right _ (List.mem_cons_self ..)
  have hfair : 1 / p' ≤ 1 / p := one_div_le_one_div_of_le (h p hmem).1 hle
  have hlength : (l₁' ++ p' :: l₂').length = (l₁ ++ p :: l₂).length := by
    simp only [List.length_append, List.length_cons, h₁.length_eq, h₂.length_eq]
  have hnetWins : ∀ {l l' : List ℝ}, List.Forall₂ (fun x x' => x' ≤ x) l l' →
      (∀ x ∈ l', 0 < x) → List.Forall₂ (· ≤ ·) (netWins l) (netWins l') := by
    intro l l' hl hpos
    induction hl with
    | nil => exact .nil
    | cons hx _ ih =>
      refine .cons ?_ (ih fun x hx => hpos x (List.mem_cons_of_mem _ hx))
      exact sub_le_sub_right (one_div_le_one_div_of_le (hpos _ (List.mem_cons_self ..)) hx) 1
  have hsplit : ∀ (l l' : List ℝ) (x : ℝ),
      netWins (l ++ x :: l') = netWins l ++ (1 / x - 1) :: netWins l' := by
    intro l l' x
    unfold netWins
    rw [List.map_append, List.map_cons]
  unfold keyedPrice
  rw [hlength]
  by_cases hn : ((l₁ ++ p :: l₂).length : ℝ) ≤ target
  · rw [if_pos hn, if_pos hn]
    exact hfair
  · rw [if_neg hn, if_neg hn]
    have hn' : target < ((netWins (l₁ ++ p :: l₂)).length : ℝ) := by
      rw [netWins, List.length_map]
      exact not_le.mp hn
    have hspec := factor_spec (netWins_pos h) ht hn'
    have hn'' : target < ((netWins (l₁' ++ p' :: l₂')).length : ℝ) := by
      rw [netWins, List.length_map, hlength]
      exact not_le.mp hn
    have hspec' := factor_spec (netWins_pos h') ht hn''
    -- the others' net wins grow and the key stays, so this one's scaled win falls
    have hkey : keyAt (netWins l₁' ++ (1 / p' - 1) :: netWins l₂')
          (factor (netWins (l₁' ++ p' :: l₂')) target) =
        keyAt (netWins l₁ ++ (1 / p - 1) :: netWins l₂) (factor (netWins (l₁ ++ p :: l₂)) target) := by
      rw [← hsplit, ← hsplit, hspec'.2, hspec.2]
    have hpos : ∀ c ∈ netWins l₁ ++ netWins l₂, 0 < c := by
      intro c hc
      refine netWins_pos h c ?_
      rw [hsplit]
      rw [List.mem_append] at hc ⊢
      exact hc.imp_right (List.mem_cons_of_mem _)
    have hscaled := scaled_le (hnetWins h₁ fun x hx => (h' x (List.mem_append_left _ hx)).1)
      (hnetWins h₂ fun x hx => (h' x (List.mem_append_right _ (List.mem_cons_of_mem _ hx))).1)
      hpos (netWin_pos (h' p' hmem')) (sub_le_sub_right hfair 1) hspec.1.le hkey
    linarith

/-! ## The market -/

section market

variable {os pre post : List (CustomOutcomeInput ℝ)} {o : CustomOutcomeInput ℝ} {e overroundBp : ℝ}
  {liability : Option (LiabilityTradingConfig ℝ)}

/-- The keyed price of an outcome. -/
noncomputable def keyedOdds (os : List (CustomOutcomeInput ℝ)) (overroundBp : ℝ)
    (liability : Option (LiabilityTradingConfig ℝ)) (o : CustomOutcomeInput ℝ) : ℝ :=
  keyedPrice (os.map (probability os liability)) (keyTarget overroundBp) (probability os liability o)

theorem keyTarget_pos (overroundBp : ℝ) : 0 < keyTarget overroundBp := by
  have := le_max_left 0 overroundBp
  unfold keyTarget
  positivity

section

variable (hlength : 2 ≤ os.length) (hpos : ∀ o ∈ os, 0 < o.baseProbability)
include hlength hpos

theorem adjusted_eq : adjusted exactKey os overroundBp liability =
    os.map (keyedOdds os overroundBp liability) := by
  have hne : os.map (probability os liability) ≠ [] := by
    rw [Ne, List.map_eq_nil_iff]
    rintro rfl
    rw [List.length_nil] at hlength
    omega
  have hkey := exactKey_eq hne (probability_spec liability hlength hpos) (keyTarget_pos overroundBp)
  rw [List.map_map, List.map_map] at hkey
  exact hkey

theorem priceCustomMarket_eq : priceCustomMarket exactKey os overroundBp liability =
    .ok (os.map fun o => cell os liability o (keyedOdds os overroundBp liability o)) := by
  have hfind : (os.find? fun o => decide (o.baseProbability ≤ 0)) = none := by
    rw [List.find?_eq_none]
    intro o ho
    simpa using hpos o ho
  unfold priceCustomMarket
  rw [if_neg (by omega), hfind, adjusted_eq hlength hpos]
  dsimp only
  rw [List.zipWith_map_right, List.zipWith_self]

theorem one_lt_keyedOdds (ho : o ∈ os) : 1 < keyedOdds os overroundBp liability o :=
  one_lt_keyedPrice (probability_spec liability hlength hpos) (keyTarget_pos overroundBp)
    (List.mem_map_of_mem ho)

theorem keyedOdds_key (hlt : keyTarget overroundBp < os.length) :
    (os.map fun o => 1 / keyedOdds os overroundBp liability o).sum = keyTarget overroundBp := by
  have hkey := keyed_key (probability_spec liability hlength hpos)
    (keyTarget_pos overroundBp) (by rwa [List.length_map])
  rw [List.map_map] at hkey
  exact hkey

end

/-- An outcome that gets likelier while no other does is published no longer. -/
theorem published_le (hlength : 2 ≤ (pre ++ o :: post).length)
    (hpos : ∀ x ∈ pre ++ o :: post, 0 < x.baseProbability)
    (hown : probability (pre ++ o :: post) liability o ≤
      probability (pre ++ raise o e :: post) liability (raise o e))
    (hothers : ∀ x ∈ pre ++ post, probability (pre ++ raise o e :: post) liability x ≤
      probability (pre ++ o :: post) liability x) :
    quoteOnLadder (keyedOdds (pre ++ raise o e :: post) overroundBp liability (raise o e)) ≤
      quoteOnLadder (keyedOdds (pre ++ o :: post) overroundBp liability o) := by
  have hlength' := raise_length (e := e) hlength
  have hpos' := raise_pos (e := e) hpos
  have hkeyed : 1 < keyedOdds (pre ++ raise o e :: post) overroundBp liability (raise o e) :=
    one_lt_keyedOdds hlength' hpos' (mem_own ..)
  have hrest : ∀ l : List (CustomOutcomeInput ℝ), (∀ x ∈ l, x ∈ pre ++ post) →
      List.Forall₂ (fun p p' => p' ≤ p) (l.map (probability (pre ++ o :: post) liability))
        (l.map (probability (pre ++ raise o e :: post) liability)) := by
    intro l hl
    rw [List.forall₂_map_left_iff, List.forall₂_map_right_iff, List.forall₂_same]
    exact fun x hx => hothers x (hl x hx)
  have hspec := probability_spec liability hlength hpos
  have hspec' := probability_spec liability hlength' hpos'
  refine quote_mono (one_pos.trans hkeyed) ?_
  unfold keyedOdds
  rw [List.map_append, List.map_cons] at hspec hspec' ⊢
  rw [List.map_append, List.map_cons]
  exact keyedPrice_le hspec hspec' (hrest pre fun x hx => List.mem_append_left _ hx)
    (hrest post fun x hx => List.mem_append_right _ hx) (keyTarget_pos overroundBp) hown

end market

/-! ## What is promised -/

section promise

variable (os : List (CustomOutcomeInput ℝ)) (overroundBp : ℝ)
  (liability : Option (LiabilityTradingConfig ℝ))

/-- Every published price is above 1. -/
def Above : Prop := ∀ cells, priceCustomMarket exactKey os overroundBp liability = .ok cells →
  ∀ c ∈ cells, 1 < c.publishedOdds

/-- No published price is above the keyed one. -/
def NotAbove : Prop := ∀ cells, priceCustomMarket exactKey os overroundBp liability = .ok cells →
  List.Forall₂ (fun (c : CustomPriceCell ℝ) (keyed : ℝ) => c.publishedOdds ≤ keyed) cells
    (adjusted exactKey os overroundBp liability)

/-- The published book has the overround. -/
def KeepsKey : Prop := ∀ cells, priceCustomMarket exactKey os overroundBp liability = .ok cells →
  1 + overroundBp / 10000 ≤ bookKey (cells.map (·.publishedOdds))

/-- More money on one outcome alone never lengthens its published price. -/
def Shortens : Prop := ∀ pre o post e, os = pre ++ o :: post → o.exposureMicro.getD 0 ≤ e →
  ∀ cells cells' c c', priceCustomMarket exactKey os overroundBp liability = .ok cells →
    priceCustomMarket exactKey (pre ++ raise o e :: post) overroundBp liability = .ok cells' →
    cells[pre.length]? = some c → cells'[pre.length]? = some c' →
    c'.publishedOdds ≤ c.publishedOdds

end promise

/-- Authored prices as they are. -/
structure IsPriced (os : List (CustomOutcomeInput ℝ)) (overroundBp : ℝ)
    (liability : Option (LiabilityTradingConfig ℝ)) (cells : List (CustomPriceCell ℝ)) : Prop where
  priced : priceCustomMarket exactKey os overroundBp liability = .ok cells
  above : List.Forall₂ (fun (c : CustomPriceCell ℝ) (keyed : ℝ) =>
      1 < keyed ∧ (10001 / 10000 ≤ keyed → 1 < c.publishedOdds)) cells
    (adjusted exactKey os overroundBp liability)
  notAbove : List.Forall₂ (fun (c : CustomPriceCell ℝ) (keyed : ℝ) =>
      c.publishedOdds ≤ keyed + 1 / 10 ^ 9 * (ladderStep keyed : ℚ) ∧
        (¬ NearRung keyed → c.publishedOdds ≤ keyed)) cells
    (adjusted exactKey os overroundBp liability)
  key : 1 + overroundBp / 10000 < os.length →
    ((adjusted exactKey os overroundBp liability).map (1 / ·)).sum = 1 + overroundBp / 10000 ∧
    (1 + overroundBp / 10000) / (1 + 1 / 10 ^ 9) ≤ bookKey (cells.map (·.publishedOdds)) ∧
    ((∀ keyed ∈ adjusted exactKey os overroundBp liability, ¬ NearRung keyed) →
      1 + overroundBp / 10000 ≤ bookKey (cells.map (·.publishedOdds)))
  unkeyed : os.length ≤ 1 + overroundBp / 10000 →
    adjusted exactKey os overroundBp liability = os.map fun o => 1 / probability os liability o
  direction : ∀ pre o post e, os = pre ++ o :: post → o.exposureMicro.getD 0 ≤ e →
    ∃ cells' c c',
      priceCustomMarket exactKey (pre ++ raise o e :: post) overroundBp liability = .ok cells' ∧
      cells[pre.length]? = some c ∧ cells'[pre.length]? = some c' ∧
      (Settled os → c.probability ≤ c'.probability) ∧
      (c.probability ≤ c'.probability → (∀ x ∈ pre ++ post,
          probability (pre ++ raise o e :: post) liability x ≤ probability os liability x) →
        c'.publishedOdds ≤ c.publishedOdds) ∧
      ((∀ cfg, ¬ Trades liability cfg) ∨ Settled os ∧
          (os.length = 2 ∨ ∀ cfg, Trades liability cfg → Uncut cfg pre post o e) →
        c'.publishedOdds ≤ c.publishedOdds)

/-- A step is no more than the price it is for. -/
theorem ladderStep_le {n : ℝ} (h : 1 ≤ n) : ((ladderStep n : ℚ) : ℝ) ≤ n := by
  rw [ladderStep_eq]
  split_ifs <;> push_cast <;> linarith

section market

variable {os pre post : List (CustomOutcomeInput ℝ)} {o : CustomOutcomeInput ℝ} {e overroundBp : ℝ}
  {liability : Option (LiabilityTradingConfig ℝ)}

theorem bookKey_ge {f : CustomOutcomeInput ℝ → ℝ} {r : ℝ}
    (h : ∀ o ∈ os, 1 < f o ∧ quoteOnLadder (f o) ≤ f o * r) :
    (os.map fun o => 1 / f o).sum / r ≤ bookKey (os.map fun o => quoteOnLadder (f o)) := by
  unfold bookKey
  rw [← sum_map_div, List.map_map]
  refine List.sum_le_sum fun o ho => ?_
  obtain ⟨hone, hle⟩ := h o ho
  have hquote : 0 < quoteOnLadder (f o) := one_pos.trans_le (one_le_quote hone)
  rw [Function.comp_apply, if_pos hquote, div_div]
  exact one_div_le_one_div_of_le hquote hle

theorem keyTarget_eq (h : 0 ≤ overroundBp) : keyTarget overroundBp = 1 + overroundBp / 10000 := by
  unfold keyTarget
  rw [max_eq_right h]

theorem getElem?_own {α β : Type} (f : α → β) (pre post : List α) (x : α) :
    ((pre ++ x :: post).map f)[pre.length]? = some (f x) := by
  rw [List.getElem?_map, List.getElem?_append_right (le_refl _), Nat.sub_self]
  rfl

/-- The chance of an outcome with money on it, and of the others. -/
theorem probability_raise (hlength : 2 ≤ (pre ++ o :: post).length)
    (hpos : ∀ x ∈ pre ++ o :: post, 0 < x.baseProbability) (he : o.exposureMicro.getD 0 ≤ e)
    (h : (∀ cfg, ¬ Trades liability cfg) ∨ Settled (pre ++ o :: post) ∧
      ((pre ++ o :: post).length = 2 ∨ ∀ cfg, Trades liability cfg → Uncut cfg pre post o e)) :
    probability (pre ++ o :: post) liability o ≤
      probability (pre ++ raise o e :: post) liability (raise o e) ∧
    ∀ x ∈ pre ++ post, probability (pre ++ raise o e :: post) liability x ≤
      probability (pre ++ o :: post) liability x := by
  unfold probability
  rcases h with hidle | ⟨hsettled, huncut⟩
  · rw [priced_idle hidle, priced_idle hidle]
    simp only [base_raise]
    exact ⟨le_rfl, fun _ _ => le_rfl⟩
  · exact ⟨max_le_max_right _ (priced_own_le hlength hpos he hsettled),
      fun x hx => max_le_max_right _ (priced_other_le hlength hpos he hsettled huncut hx)⟩

/-- What `priceCustomMarket` promises of every market it prices. -/
theorem priced_safely (os : List (CustomOutcomeInput ℝ)) (overroundBp : ℝ)
    (liability : Option (LiabilityTradingConfig ℝ)) (hlength : 2 ≤ os.length)
    (hpos : ∀ o ∈ os, 0 < o.baseProbability) (hoverround : 0 ≤ overroundBp) :
    ∃ cells, IsPriced os overroundBp liability cells := by
  have hadjusted : adjusted exactKey os overroundBp liability =
      os.map (keyedOdds os overroundBp liability) := adjusted_eq hlength hpos
  have hkeyed : ∀ o ∈ os, 1 < keyedOdds os overroundBp liability o := fun o ho =>
    one_lt_keyedOdds hlength hpos ho
  refine ⟨_, priceCustomMarket_eq hlength hpos, ?_, ?_, ?_, ?_, ?_⟩
  · rw [hadjusted, List.forall₂_map_left_iff, List.forall₂_map_right_iff, List.forall₂_same]
    exact fun o ho => ⟨hkeyed o ho, one_lt_quote⟩
  · rw [hadjusted, List.forall₂_map_left_iff, List.forall₂_map_right_iff, List.forall₂_same]
    exact fun o ho => ⟨quote_le_nudge (one_pos.trans (hkeyed o ho)),
      quote_le (one_pos.trans (hkeyed o ho))⟩
  · intro hlt
    rw [← keyTarget_eq hoverround] at hlt ⊢
    have hkey : (os.map fun o => 1 / keyedOdds os overroundBp liability o).sum =
        keyTarget overroundBp := keyedOdds_key hlength hpos hlt
    rw [hadjusted, List.map_map, List.map_map]
    refine ⟨hkey, ?_, ?_⟩
    · rw [← hkey]
      refine bookKey_ge fun o ho => ⟨hkeyed o ho, ?_⟩
      have hone := hkeyed o ho
      have hnudge := quote_le_nudge (one_pos.trans hone)
      have hstep := ladderStep_le hone.le
      rw [mul_add, mul_one, mul_comm _ (1 / 10 ^ 9 : ℝ)]
      linarith [mul_le_mul_of_nonneg_left hstep (by norm_num : (0 : ℝ) ≤ 1 / 10 ^ 9)]
    · intro hnear
      rw [← hkey, ← div_one (List.sum _)]
      refine bookKey_ge fun o ho => ⟨hkeyed o ho, ?_⟩
      rw [mul_one]
      exact quote_le (one_pos.trans (hkeyed o ho)) (hnear _ (List.mem_map_of_mem ho))
  · intro hle
    rw [← keyTarget_eq hoverround] at hle
    rw [hadjusted]
    refine List.map_congr_left fun o _ => ?_
    unfold keyedOdds keyedPrice
    rw [List.length_map, if_pos hle]
  · rintro pre o post e rfl he
    refine ⟨_, _, _, priceCustomMarket_eq (raise_length hlength) (raise_pos hpos),
      getElem?_own _ pre post o, getElem?_own _ pre post (raise o e), ?_, ?_, ?_⟩
    · exact fun hsettled => max_le_max_right _ (priced_own_le hlength hpos he hsettled)
    · exact published_le hlength hpos
    · intro h
      obtain ⟨hown, hothers⟩ := probability_raise hlength hpos he h
      exact published_le hlength hpos hown hothers

end market

def outcome (outcomeId : String) (baseProbability exposure : ℝ) : CustomOutcomeInput ℝ :=
  ⟨outcomeId, baseProbability, some exposure⟩

/-- Three outcomes with money on two of them, at an overround of five percent. -/
theorem priced_safely_liable : ∃ cells,
    IsPriced [outcome "1" 1 40, outcome "2" 2 0, outcome "3" 5 250] 500 (some ⟨true, 5000, 300⟩)
      cells :=
  priced_safely _ _ _ (by decide) (by norm_num [outcome]) (by norm_num)

/-! ## Where the promise fails -/

section failures

/-- Which side of a bound a keyed price lies on. -/
theorem keyedPrice_lt {ps : List ℝ} {target p x : ℝ} (h : ∀ p ∈ ps, 0 < p ∧ p < 1) (hp : p ∈ ps)
    (ht : 0 < target) (hlt : target < ps.length) (hx : 1 ≤ x)
    (hkey : keyAt (netWins ps) ((x - 1) / (1 / p - 1)) < target) : keyedPrice ps target p < x := by
  have hlength : (netWins ps).length = ps.length := List.length_map ..
  have hspec := factor_spec (netWins_pos h) ht (hlength ▸ hlt)
  have hc := netWin_pos (h p hp)
  have hfactor : factor (netWins ps) target < (x - 1) / (1 / p - 1) :=
    lt_of_keyAt_lt (netWins_pos h) (div_nonneg (by linarith) hc.le) (hspec.2.symm ▸ hkey)
  rw [lt_div_iff₀ hc] at hfactor
  unfold keyedPrice
  rw [if_neg (not_le.mpr hlt)]
  linarith

theorem lt_keyedPrice {ps : List ℝ} {target p x : ℝ} (h : ∀ p ∈ ps, 0 < p ∧ p < 1) (hp : p ∈ ps)
    (ht : 0 < target) (hlt : target < ps.length)
    (hkey : target < keyAt (netWins ps) ((x - 1) / (1 / p - 1))) : x < keyedPrice ps target p := by
  have hlength : (netWins ps).length = ps.length := List.length_map ..
  have hspec := factor_spec (netWins_pos h) ht (hlength ▸ hlt)
  have hc := netWin_pos (h p hp)
  have hfactor : (x - 1) / (1 / p - 1) < factor (netWins ps) target :=
    lt_of_keyAt_lt (netWins_pos h) hspec.1.le (hspec.2.symm ▸ hkey)
  rw [div_lt_iff₀ hc] at hfactor
  unfold keyedPrice
  rw [if_neg (not_le.mpr hlt)]
  linarith

/-- A favourite of 9999 to 1 with an overround of five percent is published at 1. -/
theorem not_above : ¬ Above [outcome "1" 9999 0, outcome "2" 1 0] 500 none := by
  intro h
  have hpos : ∀ o ∈ [outcome "1" 9999 0, outcome "2" 1 0], 0 < o.baseProbability := by
    simp [outcome]
  have hps : ([outcome "1" 9999 0, outcome "2" 1 0].map
      (probability [outcome "1" 9999 0, outcome "2" 1 0] none)) = [9999 / 10000, 1 / 10000] := by
    norm_num [probability, priced, trading, base, outcome, MIN_CUSTOM_PROBABILITY]
  have hp : probability [outcome "1" 9999 0, outcome "2" 1 0] none (outcome "1" 9999 0) =
      9999 / 10000 := (List.cons.inj hps).1
  have htarget : keyTarget (500 : ℝ) = 21 / 20 := by norm_num [keyTarget]
  have hspec := probability_spec none (le_refl _) hpos
  have hprice := h _ (priceCustomMarket_eq (le_refl _) hpos) _ (List.mem_cons_self ..)
  rw [hps] at hspec
  unfold cell keyedOdds at hprice
  dsimp only at hprice
  rw [hps, hp, htarget] at hprice
  have hkeyed : keyedPrice [9999 / 10000, 1 / 10000] (21 / 20) (9999 / 10000) < 10001 / 10000 := by
    refine keyedPrice_lt hspec (List.mem_cons_self ..) (by norm_num) (by norm_num) (by norm_num) ?_
    norm_num [keyAt, netWins]
  have hone := one_lt_keyedPrice hspec (by norm_num : (0 : ℝ) < 21 / 20) (List.mem_cons_self ..)
  exact absurd hprice (not_lt.mpr (quote_le_one (one_pos.trans hone) hkeyed))

/-- A fair book that has the key keeps its prices. -/
theorem keyedPrice_fair {ps : List ℝ} {target : ℝ} (h : ∀ p ∈ ps, 0 < p ∧ p < 1) (ht : 0 < target)
    (hlt : target < ps.length) (hsum : ps.sum = target) (p : ℝ) :
    keyedPrice ps target p = 1 / p := by
  have hlength : (netWins ps).length = ps.length := List.length_map ..
  have hspec := factor_spec (netWins_pos h) ht (hlength ▸ hlt)
  have hne : netWins ps ≠ [] := by
    intro hnil
    rw [hnil, List.length_nil] at hlength
    rw [← hlength, Nat.cast_zero] at hlt
    exact lt_asymm ht hlt
  have hone : keyAt (netWins ps) 1 = target := by
    unfold keyAt netWins
    rw [List.map_map, ← hsum]
    conv_rhs => rw [← List.map_id ps]
    congr 1
    refine List.map_congr_left fun p _ => ?_
    rw [Function.comp_apply, one_mul, add_sub_cancel, one_div_one_div]
    rfl
  have hfactor : factor (netWins ps) target = 1 :=
    factor_unique hne (netWins_pos h) hspec.1.le zero_le_one (hspec.2.trans hone.symm)
  unfold keyedPrice
  rw [if_neg (not_le.mpr hlt), hfactor]
  ring

/-- A price a hair under 2 is published at 2. -/
theorem not_notAbove :
    ¬ NotAbove [outcome "1" 1 0, outcome "2" (1 - 1 / 10 ^ 12) 0] 0 none := by
  intro h
  have hpos : ∀ o ∈ [outcome "1" 1 0, outcome "2" (1 - 1 / 10 ^ 12) 0], 0 < o.baseProbability := by
    norm_num [outcome]
  have hps : ([outcome "1" 1 0, outcome "2" (1 - 1 / 10 ^ 12) 0].map
        (probability [outcome "1" 1 0, outcome "2" (1 - 1 / 10 ^ 12) 0] none)) =
      [1 / (2 - 1 / 10 ^ 12), (1 - 1 / 10 ^ 12) / (2 - 1 / 10 ^ 12)] := by
    norm_num [probability, priced, trading, base, outcome, MIN_CUSTOM_PROBABILITY]
  have hp : probability [outcome "1" 1 0, outcome "2" (1 - 1 / 10 ^ 12) 0] none (outcome "1" 1 0) =
      1 / (2 - 1 / 10 ^ 12) := (List.cons.inj hps).1
  have htarget : keyTarget (0 : ℝ) = 1 := by norm_num [keyTarget]
  have hspec := probability_spec none (le_refl _) hpos
  have hprice := h _ (priceCustomMarket_eq (le_refl _) hpos)
  rw [adjusted_eq (le_refl _) hpos, List.forall₂_map_left_iff, List.forall₂_map_right_iff,
    List.forall₂_same] at hprice
  have hfirst := hprice _ (List.mem_cons_self ..)
  rw [hps] at hspec
  unfold cell keyedOdds at hfirst
  dsimp only at hfirst
  rw [hps, hp, htarget, keyedPrice_fair hspec one_pos (by norm_num) (by norm_num),
    one_div_one_div] at hfirst
  have hfloor : ((ladderFloor : ℚ) : ℝ) ≤ 2 - 1 / 10 ^ 12 := by norm_num [ladderFloor]
  have hstep : ladderStep (2 - 1 / 10 ^ 12 : ℝ) = 1 / 100 := by
    rw [ladderStep_eq, if_pos (by norm_num)]
  have hrungs : 200 ≤ ⌊(2 - 1 / 10 ^ 12 : ℝ) / ((1 / 100 : ℚ) : ℝ) + 1 / 10 ^ 9⌋ := by
    rw [Int.le_floor]
    norm_num
  have hrungs' : (200 : ℝ) ≤ (⌊(2 - 1 / 10 ^ 12 : ℝ) / ((1 / 100 : ℚ) : ℝ) + 1 / 10 ^ 9⌋ : ℤ) := by
    exact_mod_cast hrungs
  rw [quote_eq hfloor, hstep] at hfirst
  generalize (⌊(2 - 1 / 10 ^ 12 : ℝ) / ((1 / 100 : ℚ) : ℝ) + 1 / 10 ^ 9⌋ : ℤ) = rungs at *
  push_cast at hfirst
  linarith

/-- At an overround of a hundred percent two even outcomes carry none. -/
theorem not_keepsKey : ¬ KeepsKey [outcome "1" 1 0, outcome "2" 1 0] 10000 none := by
  intro h
  have hpos : ∀ o ∈ [outcome "1" 1 0, outcome "2" 1 0], 0 < o.baseProbability := by
    norm_num [outcome]
  have hkeyed : ∀ o ∈ [outcome "1" 1 0, outcome "2" 1 0],
      keyedOdds [outcome "1" 1 0, outcome "2" 1 0] 10000 none o = 2 := by
    norm_num [keyedOdds, keyedPrice, keyTarget, probability, priced, trading, base, outcome,
      MIN_CUSTOM_PROBABILITY]
  have hquote : ((ladderFloor : ℚ) : ℝ) ≤ quoteOnLadder 2 :=
    floor_le_quote (by norm_num [ladderFloor])
  have hkey := h _ (priceCustomMarket_eq (le_refl _) hpos)
  have hcells : ∀ o ∈ [outcome "1" 1 0, outcome "2" 1 0],
      ((fun c : CustomPriceCell ℝ => c.publishedOdds) ∘ fun o =>
        cell [outcome "1" 1 0, outcome "2" 1 0] none o
          (keyedOdds [outcome "1" 1 0, outcome "2" 1 0] 10000 none o)) o = quoteOnLadder 2 :=
    fun o ho => congrArg quoteOnLadder (hkeyed o ho)
  rw [List.map_map, List.map_congr_left hcells] at hkey
  generalize quoteOnLadder (2 : ℝ) = q at hkey hquote
  have hfloor : (1 : ℝ) < (ladderFloor : ℚ) := by norm_num [ladderFloor]
  have hq : 1 < q := hfloor.trans_le hquote
  have hshare : 1 / q < 1 := (div_lt_one (one_pos.trans hq)).mpr hq
  norm_num [bookKey, one_pos.trans hq] at hkey hshare
  linarith

/-- The published price before and after, from the chances. -/
theorem Shortens.at (pre : List (CustomOutcomeInput ℝ)) {post : List (CustomOutcomeInput ℝ)}
    {o : CustomOutcomeInput ℝ}
    {e overroundBp target p p' : ℝ} {ps ps' : List ℝ}
    {liability : Option (LiabilityTradingConfig ℝ)}
    (h : Shortens (pre ++ o :: post) overroundBp liability) (he : o.exposureMicro.getD 0 ≤ e)
    (hlength : 2 ≤ (pre ++ o :: post).length) (hpos : ∀ x ∈ pre ++ o :: post, 0 < x.baseProbability)
    (htarget : keyTarget overroundBp = target)
    (hps : (pre ++ o :: post).map (probability (pre ++ o :: post) liability) = ps)
    (hp : probability (pre ++ o :: post) liability o = p)
    (hps' : (pre ++ raise o e :: post).map (probability (pre ++ raise o e :: post) liability) = ps')
    (hp' : probability (pre ++ raise o e :: post) liability (raise o e) = p') :
    quoteOnLadder (keyedPrice ps' target p') ≤ quoteOnLadder (keyedPrice ps target p) := by
  have hquote := h pre o post e rfl he _ _ _ _ (priceCustomMarket_eq hlength hpos)
    (priceCustomMarket_eq (raise_length hlength) (raise_pos hpos)) (getElem?_own _ pre post o)
    (getElem?_own _ pre post (raise o e))
  unfold cell keyedOdds at hquote
  dsimp only at hquote
  rwa [htarget, hps, hp, hps', hp'] at hquote

/-- Three outcomes with money on the first and the third. -/
noncomputable def cappedMarket (e : ℝ) : List (CustomOutcomeInput ℝ) :=
  [outcome "1" (1 / 1000) e, outcome "2" (48 / 1000) 0, outcome "3" (951 / 1000) 9532]

theorem cappedMarket_chances :
    (cappedMarket 468).map (probability (cappedMarket 468) (some ⟨true, 10000, 25⟩)) =
      [35 / 10022, 455 / 10022, 9532 / 10022] ∧
    (cappedMarket 516).map (probability (cappedMarket 516) (some ⟨true, 10000, 25⟩)) =
      [1099 / 313261, 14287 / 313261, 297875 / 313261] := by
  constructor
  all_goals
    norm_num [cappedMarket, probability, priced, trading, base, outcome, MIN_CUSTOM_PROBABILITY,
      exposureSum, exposure, blended, bounded, blend, clamp, Option.filter]

/-- The cap holds the longshot while the favourite falls, so the second outcome gets
likelier with it. -/
theorem not_shortens : ¬ Shortens (cappedMarket 468) 5000 (some ⟨true, 10000, 25⟩) := by
  intro h
  have hpos : ∀ e, ∀ o ∈ cappedMarket e, 0 < o.baseProbability := by
    norm_num [cappedMarket, outcome]
  obtain ⟨hps, hps'⟩ := cappedMarket_chances
  have htarget : keyTarget (5000 : ℝ) = 3 / 2 := by norm_num [keyTarget]
  have hspec := probability_spec (some ⟨true, 10000, 25⟩) (by decide) (hpos 468)
  have hspec' := probability_spec (some ⟨true, 10000, 25⟩) (by decide) (hpos 516)
  have hquote := Shortens.at [] h (by norm_num [outcome]) (by decide) (hpos 468) htarget hps
    (List.cons.inj hps).1 hps' (List.cons.inj hps').1
  rw [hps] at hspec
  rw [hps'] at hspec'
  have hbefore : keyedPrice [35 / 10022, 455 / 10022, 9532 / 10022] (3 / 2) (35 / 10022) <
      177999 / 10000 := by
    refine keyedPrice_lt hspec (List.mem_cons_self ..) (by norm_num) (by norm_num) (by norm_num) ?_
    norm_num [keyAt, netWins]
  have hafter : 178 / 10 <
      keyedPrice [1099 / 313261, 14287 / 313261, 297875 / 313261] (3 / 2) (1099 / 313261) := by
    refine lt_keyedPrice hspec' (List.mem_cons_self ..) (by norm_num) (by norm_num) ?_
    norm_num [keyAt, netWins]
  have hone := one_lt_keyedPrice hspec (by norm_num : (0 : ℝ) < 3 / 2) (List.mem_cons_self ..)
  have hnudge := quote_le_nudge (one_pos.trans hone)
  have hstep := ladderStep_le hone.le
  have hrung : (178 : ℝ) / 10 ≤ quoteOnLadder (178 / 10) := by
    have hten : ladderStep (178 / 10 : ℝ) = 1 / 10 := by
      rw [ladderStep_eq, if_neg (by norm_num), if_pos (by norm_num)]
    have hle := rung_le_quote (n := (178 : ℝ) / 10) (q := 178) (by norm_num [ladderFloor])
      (by rw [hten]; norm_num)
    rw [hten] at hle
    push_cast at hle
    linarith
  have hmono := quote_mono (by norm_num) hafter.le
  linarith

/-- Longshots below the floor. -/
noncomputable def longshotMarket (e : ℝ) : List (CustomOutcomeInput ℝ) :=
  [outcome "1" (9999 / 10000) e, outcome "2" (1 / 20000) 0, outcome "3" (1 / 20000) 0]

theorem longshotMarket_chances :
    (longshotMarket 0).map (probability (longshotMarket 0) (some ⟨true, 10000, 0⟩)) =
      [9999 / 10000, 1 / 10000, 1 / 10000] ∧
    (longshotMarket 1).map (probability (longshotMarket 1) (some ⟨true, 10000, 0⟩)) =
      [5000 / 5001, 1 / 10000, 1 / 10000] := by
  constructor
  all_goals
    norm_num [longshotMarket, probability, priced, trading, base, outcome, MIN_CUSTOM_PROBABILITY,
      exposureSum, exposure, blended, bounded, blend, clamp, Option.filter]

/-- The first money lifts the longshots to the floor, and the favourite gets less likely. -/
theorem not_shortens_first : ¬ Shortens (longshotMarket 0) 0 (some ⟨true, 10000, 0⟩) := by
  intro h
  have hpos : ∀ e, ∀ o ∈ longshotMarket e, 0 < o.baseProbability := by
    norm_num [longshotMarket, outcome]
  obtain ⟨hps, hps'⟩ := longshotMarket_chances
  have htarget : keyTarget (0 : ℝ) = 1 := by norm_num [keyTarget]
  have hspec := probability_spec (some ⟨true, 10000, 0⟩) (by decide) (hpos 0)
  have hspec' := probability_spec (some ⟨true, 10000, 0⟩) (by decide) (hpos 1)
  have hquote := Shortens.at [] h (by norm_num [outcome]) (by decide) (hpos 0) htarget hps
    (List.cons.inj hps).1 hps' (List.cons.inj hps').1
  rw [hps] at hspec
  rw [hps'] at hspec'
  have hbefore :
    keyedPrice [9999 / 10000, 1 / 10000, 1 / 10000] 1 (9999 / 10000) < 10002 / 10000 := by
    refine keyedPrice_lt hspec (List.mem_cons_self ..) (by norm_num) (by norm_num) (by norm_num) ?_
    norm_num [keyAt, netWins]
  have hafter : 10002 / 10000 < keyedPrice [5000 / 5001, 1 / 10000, 1 / 10000] 1 (5000 / 5001) := by
    refine lt_keyedPrice hspec' (List.mem_cons_self ..) (by norm_num) (by norm_num) ?_
    norm_num [keyAt, netWins]
  have hone := one_lt_keyedPrice hspec (zero_lt_one (α := ℝ)) (List.mem_cons_self ..)
  have hlow : keyedPrice [9999 / 10000, 1 / 10000, 1 / 10000] 1 (9999 / 10000) <
      ((ladderFloor : ℚ) : ℝ) := hbefore.trans (by norm_num [ladderFloor])
  rw [quote_below (one_pos.trans hone) hlow] at hquote
  have hdown := roundDown_le (keyedPrice [9999 / 10000, 1 / 10000, 1 / 10000] 1 (9999 / 10000))
  have hunits := units_le_quote (u := 10002) (by norm_num) (lt_trans (by norm_num) hafter)
    (by push_cast; exact hafter.le)
  push_cast at hunits
  linarith

/-- None of the four promises holds of every market. -/
theorem promise_fails :
    ¬ Above [outcome "1" 9999 0, outcome "2" 1 0] 500 none ∧
    ¬ NotAbove [outcome "1" 1 0, outcome "2" (1 - 1 / 10 ^ 12) 0] 0 none ∧
    ¬ KeepsKey [outcome "1" 1 0, outcome "2" 1 0] 10000 none ∧
    ¬ Shortens (longshotMarket 0) 0 (some ⟨true, 10000, 0⟩) ∧
    ¬ Shortens (cappedMarket 468) 5000 (some ⟨true, 10000, 25⟩) :=
  ⟨not_above, not_notAbove, not_keepsKey, not_shortens_first, not_shortens⟩

end failures

end Oddzilla.CustomMarket
