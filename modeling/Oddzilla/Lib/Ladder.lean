import Mathlib

/-!
# Banded floors

A ladder rounds an integer down to a multiple of a step, and the step depends on
the band the integer lies in.  When every band begins on a multiple of its own
step (`Fits`), the rounding stays inside the band: it is idempotent and monotone
across the bounds.
-/

namespace Ladder

/-- Below the first bound the step is `step`; from there on the next band's. -/
def snap : ℤ → List (ℤ × ℤ) → ℤ → ℤ
  | step, [], u => u / step * step
  | step, (below, next) :: rest, u => if u < below then u / step * step else snap next rest u

/-- From `lower` on, every band begins on a multiple of its step. -/
def Fits : ℤ → ℤ → List (ℤ × ℤ) → Prop
  | lower, step, [] => 0 < step ∧ step ∣ lower
  | lower, step, (below, next) :: rest =>
    (0 < step ∧ step ∣ lower) ∧ lower ≤ below ∧ Fits below next rest

/-- From `lower` on, every step is at most the `n`-th part of where its band begins. -/
def Fine (n : ℤ) : ℤ → ℤ → List (ℤ × ℤ) → Prop
  | lower, step, [] => n * step ≤ lower
  | lower, step, (below, next) :: rest => n * step ≤ lower ∧ Fine n below next rest

variable {lower step u v n : ℤ} {bands : List (ℤ × ℤ)}

theorem snap_nil : snap step [] u = u / step * step := rfl

theorem snap_below {below next : ℤ} (h : u < below) :
    snap step ((below, next) :: bands) u = u / step * step := if_pos h

theorem snap_above {below next : ℤ} (h : ¬ u < below) :
    snap step ((below, next) :: bands) u = snap next bands u := if_neg h

theorem floor_le (h : 0 < step) : u / step * step ≤ u := Int.ediv_mul_le u h.ne'

theorem lt_floor_add (h : 0 < step) : u < u / step * step + step := by
  have hmod := Int.emod_lt_of_pos u h
  have hdiv := Int.ediv_mul_add_emod u step
  omega

/-- A multiple below `u` is below its rounding. -/
theorem le_floor (h : 0 < step) (hdvd : step ∣ v) (hle : v ≤ u) : v ≤ u / step * step := by
  obtain ⟨q, rfl⟩ := hdvd
  have hq : q ≤ u / step := by
    rw [Int.le_ediv_iff_mul_le h, mul_comm]
    exact hle
  rw [mul_comm step q]
  exact Int.mul_le_mul_of_nonneg_right hq h.le

theorem le_snap (h : Fits lower step bands) (hu : lower ≤ u) : lower ≤ snap step bands u := by
  induction bands generalizing lower step with
  | nil =>
    obtain ⟨hpos, hdvd⟩ := h
    exact le_floor hpos hdvd hu
  | cons band rest ih =>
    obtain ⟨below, next⟩ := band
    obtain ⟨⟨hpos, hdvd⟩, hle, hrest⟩ := h
    by_cases hb : u < below
    · rw [snap_below hb]
      exact le_floor hpos hdvd hu
    · rw [snap_above hb]
      exact hle.trans (ih hrest (not_lt.mp hb))

theorem snap_le (h : Fits lower step bands) : snap step bands u ≤ u := by
  induction bands generalizing lower step with
  | nil => exact floor_le h.1
  | cons band rest ih =>
    obtain ⟨below, next⟩ := band
    obtain ⟨⟨hpos, -⟩, -, hrest⟩ := h
    by_cases hb : u < below
    · rw [snap_below hb]
      exact floor_le hpos
    · rw [snap_above hb]
      exact ih hrest

theorem snap_snap (h : Fits lower step bands) :
    snap step bands (snap step bands u) = snap step bands u := by
  induction bands generalizing lower step with
  | nil =>
    rw [snap_nil, snap_nil, Int.mul_ediv_cancel _ h.1.ne']
  | cons band rest ih =>
    obtain ⟨below, next⟩ := band
    obtain ⟨⟨hpos, -⟩, -, hrest⟩ := h
    by_cases hu : u < below
    · -- the rounding of `u` is in the band of `u`
      have hlow : u / step * step < below := lt_of_le_of_lt (floor_le hpos) hu
      rw [snap_below hu, snap_below hlow, Int.mul_ediv_cancel _ hpos.ne']
    · have hge := le_snap hrest (not_lt.mp hu)
      rw [snap_above hu, snap_above (not_lt.mpr hge)]
      exact ih hrest

theorem snap_mono (h : Fits lower step bands) (huv : u ≤ v) :
    snap step bands u ≤ snap step bands v := by
  induction bands generalizing lower step with
  | nil => exact Int.mul_le_mul_of_nonneg_right (Int.ediv_le_ediv h.1 huv) h.1.le
  | cons band rest ih =>
    obtain ⟨below, next⟩ := band
    obtain ⟨⟨hpos, -⟩, -, hrest⟩ := h
    by_cases hv : v < below
    · rw [snap_below hv, snap_below (lt_of_le_of_lt huv hv)]
      exact Int.mul_le_mul_of_nonneg_right (Int.ediv_le_ediv hpos huv) hpos.le
    · rw [snap_above hv]
      by_cases hu : u < below
      · rw [snap_below hu]
        calc u / step * step ≤ u := floor_le hpos
          _ ≤ below := hu.le
          _ ≤ snap next rest v := le_snap hrest (not_lt.mp hv)
      · rw [snap_above hu]
        exact ih hrest

/-- What a snap takes off is less than the `n`-th part of what it leaves. -/
theorem snap_close (h : Fits lower step bands) (hn : 0 ≤ n) (hfine : Fine n lower step bands)
    (hu : lower ≤ u) : n * (u + 1 - snap step bands u) ≤ snap step bands u := by
  induction bands generalizing lower step with
  | nil =>
    obtain ⟨hpos, hdvd⟩ := h
    have hgap : u + 1 - snap step [] u ≤ step := by
      have := @lt_floor_add step u hpos
      unfold snap
      omega
    calc n * (u + 1 - snap step [] u) ≤ n * step := Int.mul_le_mul_of_nonneg_left hgap hn
      _ ≤ lower := hfine
      _ ≤ snap step [] u := le_floor hpos hdvd hu
  | cons band rest ih =>
    obtain ⟨below, next⟩ := band
    obtain ⟨⟨hpos, hdvd⟩, -, hrest⟩ := h
    obtain ⟨hstep, hfine⟩ := hfine
    by_cases hb : u < below
    · rw [snap_below hb]
      have hgap : u + 1 - u / step * step ≤ step := by
        have := @lt_floor_add step u hpos
        omega
      calc n * (u + 1 - u / step * step) ≤ n * step := Int.mul_le_mul_of_nonneg_left hgap hn
        _ ≤ lower := hstep
        _ ≤ u / step * step := le_floor hpos hdvd hu
    · rw [snap_above hb]
      exact ih hrest hfine (not_lt.mp hb)

end Ladder
