import Mathlib.Algebra.Order.Floor.Ring
import Mathlib.Data.Rat.Floor
import Mathlib.Data.List.Perm.Basic

/-!
# Random draws and the shuffle

A random source gives values in `[0, 1)`, and a program uses such a value as the whole part
of its product with a bound.  Only that the result is below the bound is kept of it, so the
results hold however the product is rounded.  The shuffle swaps each place, from the last
one down, with a drawn place not after it.
-/

namespace Shuffle

/-- What one value of the source gives below each bound. -/
structure Draw where
  below : Nat → Nat
  below_lt : ∀ {n}, 0 < n → below n < n

/-- The values of a source, in turn. -/
abbrev Source := Nat → Draw

def Source.rest (rng : Source) : Source := fun k => rng (k + 1)

/-- A value from `lo` to `hi`; none is drawn when there is no choice. -/
def randInt (lo hi : Nat) (rng : Source) : Nat × Source :=
  if hi ≤ lo then (lo, rng) else (lo + (rng 0).below (hi - lo + 1), rng.rest)

variable {α : Type}

def swapDown : Nat → Array α → Source → Array α × Source
  | 0, a, rng => (a, rng)
  | i + 1, a, rng => swapDown i (a.swapIfInBounds (i + 1) ((rng 0).below (i + 2))) rng.rest

def shuffled (items : List α) (rng : Source) : List α × Source :=
  let swapped := swapDown (items.length - 1) items.toArray rng
  (swapped.1.toList, swapped.2)

variable {lo hi : Nat} (rng : Source)

theorem randInt_mem (h : lo ≤ hi) : lo ≤ (randInt lo hi rng).1 ∧ (randInt lo hi rng).1 ≤ hi := by
  unfold randInt
  split
  · exact ⟨le_rfl, h⟩
  · have hdraw : (rng 0).below (hi - lo + 1) < hi - lo + 1 := (rng 0).below_lt (Nat.succ_pos _)
    dsimp only
    omega

theorem swapIfInBounds_perm (a : Array α) (i j : Nat) :
    (a.swapIfInBounds i j).toList.Perm a.toList := by
  unfold Array.swapIfInBounds
  split
  · split
    · exact (Array.swap_perm _ _).toList
    · exact .refl _
  · exact .refl _

theorem swapDown_perm (i : Nat) (a : Array α) : (swapDown i a rng).1.toList.Perm a.toList := by
  induction i generalizing a rng with
  | zero => exact .refl _
  | succ i ih => exact (ih _ _).trans (swapIfInBounds_perm a _ _)

theorem shuffled_perm (items : List α) : (shuffled items rng).1.Perm items :=
  swapDown_perm rng _ items.toArray

end Shuffle
