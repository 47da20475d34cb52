import Mathlib.Algebra.Order.Floor.Ring
import Mathlib.Tactic

/-!
# Bisection

A loop that walks by a factor until a test fails, and a loop that halves a bracket until it
is narrow.  The halving returns the middle of one step of a grid that is laid over the
bracket.  With middles that are rounded there is no grid; then what it returns is known by
the brackets it may end with and the test at their lower ends.
-/

namespace Bisection

-- The halves of the definitions hold this proof.
scoped instance atLeastTwo_two : Nat.AtLeastTwo 2 := ⟨le_refl 2⟩

variable {K : Type} [Field K] [LinearOrder K] [IsStrictOrderedRing K]

/-! ## The walk -/

/-- `while (go x) x *= c`, at most `n` times. -/
def walk (go : K → Prop) [DecidablePred go] (c : K) : Nat → K → K
  | 0, x => x
  | n + 1, x => if go x then walk go c n (x * c) else x

omit [IsStrictOrderedRing K] [LinearOrder K] in
/-- The walk goes on as long as the test holds, and stops early only where it fails. -/
theorem walk_spec (go : K → Prop) [DecidablePred go] (c : K) (n : Nat) (x : K) :
    ∃ j ≤ n, walk go c n x = x * c ^ j ∧ (∀ i < j, go (x * c ^ i)) ∧
      (j < n → ¬ go (x * c ^ j)) := by
  induction n generalizing x with
  | zero => exact ⟨0, le_refl 0, by simp [walk], by simp, by simp⟩
  | succ n ih =>
    unfold walk
    by_cases hgo : go x
    · obtain ⟨j, hj, heq, hall, hstop⟩ := ih (x * c)
      have hshift : ∀ i, x * c * c ^ i = x * c ^ (i + 1) := fun i => by ring
      refine ⟨j + 1, Nat.succ_le_succ hj, ?_, ?_, ?_⟩
      · rw [if_pos hgo, heq, hshift]
      · intro i hi
        cases i with
        | zero => rwa [pow_zero, mul_one]
        | succ i => exact hshift i ▸ hall i (Nat.lt_of_succ_lt_succ hi)
      · intro hlt
        exact hshift j ▸ hstop (Nat.lt_of_succ_lt_succ hlt)
    · refine ⟨0, Nat.zero_le _, ?_, fun i hi => absurd hi (Nat.not_lt_zero i), fun _ => ?_⟩
      · rw [if_neg hgo, pow_zero, mul_one]
      · rwa [pow_zero, mul_one]

/-! ## The halving -/

/-- The middle of `lo` and `hi` after at most `n` halvings; it stops below the width `w`. -/
def bisect (left : K → Prop) [DecidablePred left] (w : K) : Nat → K → K → K
  | 0, lo, hi => (lo + hi) / 2
  | n + 1, lo, hi =>
    let mid := (lo + hi) / 2
    let (lo, hi) := if left mid then (mid, hi) else (lo, mid)
    if hi - lo < w then (lo + hi) / 2 else bisect left w n lo hi

/-- The width of the last bracket. -/
def step (w : K) : Nat → K → K
  | 0, width => width
  | n + 1, width => if width / 2 < w then width / 2 else step w n (width / 2)

theorem step_spec (w : K) (n : Nat) (width : K) : ∃ k : Nat, width = 2 ^ k * step w n width := by
  induction n generalizing width with
  | zero => exact ⟨0, by simp [step]⟩
  | succ n ih =>
    unfold step
    split
    · exact ⟨1, by ring⟩
    · obtain ⟨k, hk⟩ := ih (width / 2)
      exact ⟨k + 1, by rw [pow_succ]; linarith⟩

theorem step_pos {w width : K} (n : Nat) (h : 0 < width) : 0 < step w n width := by
  obtain ⟨k, hk⟩ := step_spec w n width
  rw [hk] at h
  exact pos_of_mul_pos_right h (by positivity)

/-- Enough halvings make the bracket narrow. -/
theorem step_lt {w width : K} {n : Nat} (h : width < 2 ^ n * w) : step w n width < w := by
  induction n generalizing width with
  | zero => simpa [step] using h
  | succ n ih =>
    unfold step
    split
    · assumption
    · exact ih (by rw [pow_succ] at h; linarith)

section

variable (left : K → Prop) [DecidablePred left] (w : K)

/-- Bisection returns the middle of a step of the grid, whose inner ends it has tested. -/
theorem bisect_grid (n : Nat) {lo hi : K} (h : lo ≤ hi) :
    ∃ m : Nat, bisect left w n lo hi =
        lo + m * step w n (hi - lo) + step w n (hi - lo) / 2 ∧
      (m = 0 ∨ left (lo + m * step w n (hi - lo))) ∧
      lo + (m + 1) * step w n (hi - lo) ≤ hi ∧
      (lo + (m + 1) * step w n (hi - lo) = hi ∨ ¬ left (lo + (m + 1) * step w n (hi - lo))) := by
  induction n generalizing lo hi with
  | zero =>
    exact ⟨0, by simp [bisect, step]; ring, .inl rfl, by simp [step], .inl (by simp [step])⟩
  | succ n ih =>
    have hright : hi - (lo + hi) / 2 = (hi - lo) / 2 := by ring
    have hleft : (lo + hi) / 2 - lo = (hi - lo) / 2 := by ring
    simp only [bisect, step]
    by_cases hmid : left ((lo + hi) / 2)
    · -- the upper half
      rw [if_pos hmid]
      simp only [hright]
      by_cases hstop : (hi - lo) / 2 < w
      · rw [if_pos hstop, if_pos hstop]
        have hend : lo + ((1 : Nat) : K) * ((hi - lo) / 2) = (lo + hi) / 2 := by push_cast; ring
        have hnext : lo + (((1 : Nat) : K) + 1) * ((hi - lo) / 2) = hi := by push_cast; ring
        exact ⟨1, by push_cast; ring, .inr (hend ▸ hmid), hnext.le, .inl hnext⟩
      · rw [if_neg hstop, if_neg hstop]
        have hhalf : (lo + hi) / 2 ≤ hi := by linarith
        obtain ⟨m, heq, hlo, hle, hhi⟩ := ih hhalf
        rw [hright] at heq hlo hle hhi
        obtain ⟨k, hk⟩ := step_spec w n ((hi - lo) / 2)
        have hshift : ∀ r : K, (lo + hi) / 2 + r * step w n ((hi - lo) / 2) =
            lo + (2 ^ k + r) * step w n ((hi - lo) / 2) := by
          intro r
          rw [add_mul, ← hk]
          ring
        have hassoc : ((2 ^ k + m : Nat) : K) + 1 = 2 ^ k + ((m : K) + 1) := by push_cast; ring
        refine ⟨2 ^ k + m, ?_, .inr ?_, ?_, ?_⟩
        · rw [heq, hshift]
          push_cast
          rfl
        · rcases hlo with rfl | hlo
          · have hbase := hshift 0
            rw [zero_mul, add_zero] at hbase
            push_cast
            rwa [← hbase]
          · push_cast
            rwa [← hshift]
        · rwa [hassoc, ← hshift]
        · rwa [hassoc, ← hshift]
    · -- the lower half
      rw [if_neg hmid]
      simp only [hleft]
      have hend : lo + (((0 : Nat) : K) + 1) * ((hi - lo) / 2) = (lo + hi) / 2 := by
        push_cast; ring
      by_cases hstop : (hi - lo) / 2 < w
      · rw [if_pos hstop, if_pos hstop]
        exact ⟨0, by push_cast; ring, .inl rfl, by rw [hend]; linarith, .inr (hend ▸ hmid)⟩
      · rw [if_neg hstop, if_neg hstop]
        have hhalf : lo ≤ (lo + hi) / 2 := by linarith
        obtain ⟨m, heq, hlo, hle, hhi⟩ := ih hhalf
        rw [hleft] at heq hlo hle hhi
        refine ⟨m, heq, hlo, by linarith, .inr ?_⟩
        rcases hhi with hhi | hhi
        · rwa [hhi]
        · exact hhi

variable {left w} {n : Nat} {lo hi x : K}

/-- What is returned lies in the bracket. -/
theorem bisect_mem (h : lo ≤ hi) :
    lo ≤ bisect left w n lo hi ∧ bisect left w n lo hi ≤ hi := by
  obtain ⟨m, heq, -, hle, -⟩ := bisect_grid left w n h
  obtain ⟨k, hk⟩ := step_spec w n (hi - lo)
  have hstep : 0 ≤ step w n (hi - lo) :=
    nonneg_of_mul_nonneg_right (hk ▸ sub_nonneg.mpr h) (by positivity)
  have hm : 0 ≤ (m : K) * step w n (hi - lo) := by positivity
  rw [heq]
  constructor <;> linarith

/-- A decreasing function that meets `t` in the bracket does so in the last one. -/
theorem bisect_encloses {f : K → K} {t : K} (h : lo ≤ hi) (hlo : t ≤ f lo) (hhi : f hi ≤ t) :
    ∃ a b, lo ≤ a ∧ b ≤ hi ∧ b - a = step w n (hi - lo) ∧ f b ≤ t ∧ t ≤ f a ∧
      a ≤ bisect (fun x => t < f x) w n lo hi ∧ bisect (fun x => t < f x) w n lo hi ≤ b := by
  obtain ⟨m, heq, hm, hle, hnext⟩ := bisect_grid (fun x => t < f x) w n h
  obtain ⟨k, hk⟩ := step_spec w n (hi - lo)
  have hstep : 0 ≤ step w n (hi - lo) :=
    nonneg_of_mul_nonneg_right (hk ▸ sub_nonneg.mpr h) (by positivity)
  have hpos : 0 ≤ (m : K) * step w n (hi - lo) := by positivity
  refine ⟨lo + m * step w n (hi - lo), lo + (m + 1) * step w n (hi - lo), by linarith, hle,
    by ring, ?_, ?_, ?_, ?_⟩
  · rcases hnext with hnext | hnext
    · rwa [hnext]
    · exact not_lt.mp hnext
  · rcases hm with rfl | hm
    · simpa using hlo
    · exact hm.le
  · rw [heq]
    linarith
  · rw [heq]
    linarith

end

/-! ## Halving by any middle -/

section

variable {A : Type} (left : A → Prop) [DecidablePred left] (mid : A → A → A)
  (narrow : A → A → Prop) [DecidableRel narrow]

/-- Bisection whose middles may be rounded. -/
def search : Nat → A → A → A
  | 0, lo, hi => mid lo hi
  | n + 1, lo, hi =>
    let m := mid lo hi
    let (lo, hi) := if left m then (m, hi) else (lo, m)
    if narrow lo hi then mid lo hi else search n lo hi

/-- The search may end with the bracket `a`, `b`, whatever its test says. -/
def Ends : Nat → A → A → A → A → Prop
  | 0, lo, hi, a, b => a = lo ∧ b = hi
  | n + 1, lo, hi, a, b =>
    (if narrow (mid lo hi) hi then a = mid lo hi ∧ b = hi else Ends n (mid lo hi) hi a b) ∨
    (if narrow lo (mid lo hi) then a = lo ∧ b = mid lo hi else Ends n lo (mid lo hi) a b)

variable {left mid narrow} {n : Nat} {lo hi a b : A}

/-- It ends with a bracket whose lower end passes the test. -/
theorem search_ends (hlo : left lo) :
    ∃ a b, Ends mid narrow n lo hi a b ∧ left a ∧ search left mid narrow n lo hi = mid a b := by
  induction n generalizing lo hi with
  | zero => exact ⟨lo, hi, ⟨rfl, rfl⟩, hlo, rfl⟩
  | succ n ih =>
    unfold search Ends
    by_cases hleft : left (mid lo hi)
    · simp only [if_pos hleft]
      by_cases hstop : narrow (mid lo hi) hi
      · simp only [if_pos hstop]
        exact ⟨_, _, .inl ⟨rfl, rfl⟩, hleft, rfl⟩
      · simp only [if_neg hstop]
        obtain ⟨a, b, hends, ha, heq⟩ := @ih (mid lo hi) hi hleft
        exact ⟨a, b, .inl hends, ha, heq⟩
    · simp only [if_neg hleft]
      by_cases hstop : narrow lo (mid lo hi)
      · simp only [if_pos hstop]
        exact ⟨_, _, .inr ⟨rfl, rfl⟩, hlo, rfl⟩
      · simp only [if_neg hstop]
        obtain ⟨a, b, hends, ha, heq⟩ := @ih lo (mid lo hi) hlo
        exact ⟨a, b, .inr hends, ha, heq⟩

variable [LinearOrder A] {R : A → Prop}
  (hmid : ∀ a b, R a → R b → a ≤ b → R (mid a b) ∧ a ≤ mid a b ∧ mid a b ≤ b)

include hmid

theorem Ends.mem (h : Ends mid narrow n lo hi a b) (hR : R lo ∧ R hi) (hle : lo ≤ hi) :
    lo ≤ a ∧ a ≤ mid a b ∧ mid a b ≤ hi := by
  induction n generalizing lo hi with
  | zero =>
    obtain ⟨rfl, rfl⟩ := h
    exact ⟨le_refl _, (hmid _ _ hR.1 hR.2 hle).2⟩
  | succ n ih =>
    obtain ⟨hRm, hlom, hmhi⟩ := hmid lo hi hR.1 hR.2 hle
    unfold Ends at h
    rcases h with h | h
    · split at h
      · obtain ⟨rfl, rfl⟩ := h
        exact ⟨hlom, (hmid _ _ hRm hR.2 hmhi).2⟩
      · obtain ⟨ha, hab⟩ := ih h ⟨hRm, hR.2⟩ hmhi
        exact ⟨hlom.trans ha, hab⟩
    · split at h
      · obtain ⟨rfl, rfl⟩ := h
        obtain ⟨-, hla, hah⟩ := hmid _ _ hR.1 hRm hlom
        exact ⟨le_refl _, hla, hah.trans hmhi⟩
      · obtain ⟨ha, hab, hbm⟩ := ih h ⟨hR.1, hRm⟩ hlom
        exact ⟨ha, hab, hbm.trans hmhi⟩

theorem search_mem (hR : R lo ∧ R hi) (hle : lo ≤ hi) (hlo : left lo) :
    lo ≤ search left mid narrow n lo hi ∧ search left mid narrow n lo hi ≤ hi := by
  obtain ⟨a, b, hends, -, heq⟩ : ∃ a b, Ends mid narrow n lo hi a b ∧ left a ∧
    search left mid narrow n lo hi = mid a b := search_ends hlo
  obtain ⟨ha, ham, hmh⟩ := hends.mem hmid hR hle
  rw [heq]
  exact ⟨ha.trans ham, hmh⟩

/-- Of the brackets it may end with, it ends with the highest whose lower end passes. -/
theorem Ends.mid_le_search (hanti : ∀ a b, lo ≤ a → a ≤ b → left b → left a) (hR : R lo ∧ R hi)
    (hle : lo ≤ hi) (hlo : left lo) (h : Ends mid narrow n lo hi a b) (ha : left a) :
    mid a b ≤ search left mid narrow n lo hi := by
  induction n generalizing lo hi with
  | zero =>
    obtain ⟨rfl, rfl⟩ := h
    exact le_refl _
  | succ n ih =>
    obtain ⟨hRm, hlom, hmhi⟩ := hmid lo hi hR.1 hR.2 hle
    unfold search
    unfold Ends at h
    by_cases hleft : left (mid lo hi)
    · simp only [if_pos hleft]
      have hanti' : ∀ a b, mid lo hi ≤ a → a ≤ b → left b → left a := fun a b hma => hanti a b (hlom.trans hma)
      have hupper : mid lo hi ≤ if narrow (mid lo hi) hi then mid (mid lo hi) hi else
          search left mid narrow n (mid lo hi) hi := by
        split
        · exact (hmid _ _ hRm hR.2 hmhi).2.1
        · exact (search_mem hmid ⟨hRm, hR.2⟩ hmhi hleft).1
      rcases h with h | h
      · split at h
        · next hstop =>
          obtain ⟨rfl, rfl⟩ := h
          rw [if_pos hstop]
        · next hstop =>
          rw [if_neg hstop]
          exact ih hanti' ⟨hRm, hR.2⟩ hmhi hleft h
      · -- a bracket of the lower half
        refine le_trans ?_ hupper
        split at h
        · obtain ⟨rfl, rfl⟩ := h
          exact (hmid _ _ hR.1 hRm hlom).2.2
        · exact (h.mem hmid ⟨hR.1, hRm⟩ hlom).2.2
    · simp only [if_neg hleft]
      rcases h with h | h
      · -- the middle would pass as well
        exfalso
        refine hleft (hanti _ a hlom ?_ ha)
        split at h
        · exact h.1.ge
        · exact (h.mem hmid ⟨hRm, hR.2⟩ hmhi).1
      · split at h
        · next hstop =>
          obtain ⟨rfl, rfl⟩ := h
          rw [if_pos hstop]
        · next hstop =>
          rw [if_neg hstop]
          exact ih hanti ⟨hR.1, hRm⟩ hlom hlo h

end

end Bisection
