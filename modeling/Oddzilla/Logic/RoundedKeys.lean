import Oddzilla.Lib.Bisection
import Oddzilla.Odds.Netwinstable

/-!
# The key of a market in doubles

Every operation of the loops is monotone, and rounding is, so the key falls in doubles as it
does over the rationals.  The bisection then ends with the highest of its last brackets at
whose lower end the key is above the target.
-/

namespace Oddzilla.Boost.Rounded

open Binary64 (nearest nearest_mono nearest_zero Representable)

variable {cs xs : List ℚ} {t a b x : ℚ} {n : Nat}

/-! ## Sums -/

theorem foldl_add_mono {f g : ℚ → ℚ} (h : ∀ c ∈ cs, f c ≤ g c) (hab : a ≤ b) :
    (cs.map f).foldl (fun s x => nearest (s + x)) a ≤ (cs.map g).foldl (fun s x => nearest (s + x)) b := by
  induction cs generalizing a b with
  | nil => exact hab
  | cons c cs ih =>
    obtain ⟨hc, hcs⟩ := List.forall_mem_cons.mp h
    exact ih hcs (nearest_mono (add_le_add hab hc))

theorem le_foldl_add (h : ∀ x ∈ xs, 0 ≤ x) (ha : Representable a) :
    a ≤ xs.foldl (fun s x => nearest (s + x)) a := by
  induction xs generalizing a with
  | nil => exact le_refl _
  | cons x xs ih =>
    obtain ⟨hx, hxs⟩ := List.forall_mem_cons.mp h
    refine le_trans ?_ (ih hxs (Binary64.representable_nearest _))
    exact ha.nearest.ge.trans (nearest_mono (by linarith))

/-- A sum of doubles is no less than each. -/
theorem le_sum (h : ∀ x ∈ xs, 0 ≤ x) (hx : x ∈ xs) (hR : Representable x) : x ≤ sum nearest xs := by
  have hle : ∀ s : ℚ, 0 ≤ s → x ≤ xs.foldl (fun s x => nearest (s + x)) s := by
    induction xs with
    | nil => exact absurd hx List.not_mem_nil
    | cons y ys ih =>
      intro s hs
      obtain ⟨hy, hys⟩ := List.forall_mem_cons.mp h
      rcases List.mem_cons.mp hx with rfl | hrest
      · have hfirst : x ≤ nearest (s + x) := hR.nearest.ge.trans (nearest_mono (by linarith))
        exact hfirst.trans (le_foldl_add hys (Binary64.representable_nearest _))
      · exact ih hys hrest _ (nearest_zero ▸ nearest_mono (by linarith))
  exact hle 0 (le_refl _)

theorem sum_zero (n : Nat) : sum nearest (List.replicate n 0) = 0 := by
  induction n with
  | zero => rfl
  | succ n ih =>
    rw [List.replicate_succ]
    unfold sum at ih ⊢
    rw [List.foldl_cons, add_zero, nearest_zero, ih]

/-! ## Shares -/

theorem given_nonneg (scale o cap : ℚ) : 0 ≤ given nearest scale o cap := by
  unfold given
  split
  · next h => exact h.1.le
  · exact le_refl _

theorem representable_given (scale o cap : ℚ) : Representable (given nearest scale o cap) := by
  unfold given
  split
  · exact Binary64.representable_nearest _
  · exact_mod_cast Binary64.representable_int (k := 0) (by norm_num)

/-- What is given leaves something of the inverse price. -/
theorem given_lt {scale o cap : ℚ} (h : 0 < given nearest scale o cap) :
    0 < nearest (nearest (1 / o) - given nearest scale o cap) := by
  unfold given at h ⊢
  split at h
  · next hgiven => rw [if_pos hgiven]; exact hgiven.2
  · exact absurd h (lt_irrefl _)

/-! ## The key falls -/

/-- A price with its net win at `alpha` times. -/
def lift (alpha c : ℚ) : ℚ := nearest (1 + nearest (alpha * c))

theorem lift_mono {c : ℚ} (hc : 0 ≤ c) : Monotone fun alpha => lift alpha c := fun _ _ h =>
  nearest_mono (add_le_add_right (nearest_mono (mul_le_mul_of_nonneg_right h hc)) 1)

theorem lift_pos {c : ℚ} (hc : 0 ≤ c) (ha : 0 ≤ a) : 0 < lift a c := by
  have hnonneg : 0 ≤ nearest (a * c) := nearest_zero ▸ nearest_mono (mul_nonneg ha hc)
  exact Binary64.nearest_pos (by linarith)

theorem keyAt_antitone (hcs : ∀ c ∈ cs, 0 ≤ c) (ha : 0 ≤ a) (hab : a ≤ b) :
    keyAt nearest cs b ≤ keyAt nearest cs a := by
  refine foldl_add_mono (fun c hc => nearest_mono ?_) (le_refl _)
  exact one_div_le_one_div_of_le (lift_pos (hcs c hc) ha) (lift_mono (hcs c hc) hab)

/-! ## The loops -/

theorem bisect_eq (cs : List ℚ) (t : ℚ) (n : Nat) (lo hi : ℚ) :
    bisect nearest cs t n lo hi =
      Bisection.search (fun x => t < keyAt nearest cs x) (mid nearest) (Narrow nearest) n lo hi := by
  induction n generalizing lo hi with
  | zero => rfl
  | succ n ih =>
    unfold bisect Bisection.search
    simp only [ih]

/-- The middle of two doubles lies between them. -/
theorem mid_mem (a b : ℚ) (ha : Representable a) (hb : Representable b) (h : a ≤ b) :
    Representable (mid nearest a b) ∧ a ≤ mid nearest a b ∧ mid nearest a b ≤ b := by
  have hlo := nearest_mono (show 2 * a ≤ a + b by linarith)
  have hhi := nearest_mono (show a + b ≤ 2 * b by linarith)
  rw [ha.two_mul.nearest] at hlo
  rw [hb.two_mul.nearest] at hhi
  refine ⟨Binary64.representable_nearest _, ?_, ?_⟩
  · exact ha.nearest.ge.trans (nearest_mono (by linarith))
  · exact (nearest_mono (by linarith)).trans hb.nearest.le

theorem growHi_mem {hi : ℚ} (hR : Representable hi) (h : 1 ≤ hi) :
    Representable (growHi nearest cs t n hi) ∧ 1 ≤ growHi nearest cs t n hi := by
  induction n generalizing hi with
  | zero => exact ⟨hR, h⟩
  | succ n ih =>
    unfold growHi
    have hdouble := hR.two_mul.nearest
    split
    · refine ih (Binary64.representable_nearest _) ?_
      rw [mul_comm, hdouble]
      linarith
    · exact ⟨hR, h⟩

/-- The upper end of the bracket for a lower key. -/
def top (cs : List ℚ) (t : ℚ) : ℚ := growHi nearest cs t 30 2

/-- The factor that the bisection ends with. -/
def factor (cs : List ℚ) (t : ℚ) : ℚ := bisect nearest cs t 80 1 (top cs t)

theorem bracket_mem : (Representable 1 ∧ Representable (top cs t)) ∧ 1 ≤ top cs t := by
  have hone : Representable 1 := by exact_mod_cast Binary64.representable_int (k := 1) (by norm_num)
  have htwo : Representable 2 := by exact_mod_cast Binary64.representable_int (k := 2) (by norm_num)
  obtain ⟨hR, hle⟩ : Representable (top cs t) ∧ 1 ≤ top cs t := growHi_mem htwo (by norm_num)
  exact ⟨⟨hone, hR⟩, hle⟩

variable (ht : t < keyAt nearest cs 1)

include ht

theorem one_le_factor : 1 ≤ factor cs t := by
  unfold factor
  rw [bisect_eq]
  exact (Bisection.search_mem mid_mem bracket_mem.1 bracket_mem.2 ht).1

/-- What grows with the factor is known by the brackets the bisection may end with and the
key at their lower ends. -/
theorem le_factor_iff (hcs : ∀ c ∈ cs, 0 ≤ c) {Q : ℚ → Int} (hQ : Monotone Q) {v : Int} :
    v ≤ Q (factor cs t) ↔
      ∃ a b, Bisection.Ends (mid nearest) (Narrow nearest) 80 1 (top cs t) a b ∧
        t < keyAt nearest cs a ∧ v ≤ Q (mid nearest a b) := by
  have hanti : ∀ a b, 1 ≤ a → a ≤ b → t < keyAt nearest cs b → t < keyAt nearest cs a :=
    fun a b ha hab hb => hb.trans_le (keyAt_antitone hcs (zero_le_one.trans ha) hab)
  unfold factor
  rw [bisect_eq]
  constructor
  · intro hv
    obtain ⟨a, b, hends, ha, heq⟩ : ∃ a b,
        Bisection.Ends (mid nearest) (Narrow nearest) 80 1 (top cs t) a b ∧ t < keyAt nearest cs a ∧ _ = _ :=
      Bisection.search_ends ht
    exact ⟨a, b, hends, ha, heq ▸ hv⟩
  · rintro ⟨a, b, hends, ha, hv⟩
    exact hv.trans (hQ (hends.mid_le_search mid_mem hanti bracket_mem.1 bracket_mem.2 ht ha))

end Oddzilla.Boost.Rounded
