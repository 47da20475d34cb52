import Mathlib.Algebra.BigOperators.Group.Finset.Piecewise
import Mathlib.Algebra.Order.BigOperators.Group.Finset
import Mathlib.Data.Finset.Basic
import Mathlib.Logic.Function.Basic
import Mathlib.Tactic.Abel

/-!
# Tables

A table with finitely many rows, looked up by their key and summed over.  A row is
inserted once and then only modified, so inserts and updates of different keys
commute, and a sum over the rows changes by what happens to one of them.
-/

/-- Finitely many rows under their keys. -/
@[ext] structure Table (K V : Type) where
  row : K → Option V
  keys : Finset K
  mem_keys : ∀ k, k ∈ keys ↔ (row k).isSome = true

namespace Table

variable {K V M : Type}

instance : EmptyCollection (Table K V) := ⟨⟨fun _ => none, ∅, fun _ => by simp⟩⟩

/-- The rows say which keys there are. -/
theorem eq_of_row {t t' : Table K V} (h : t.row = t'.row) : t = t' := by
  refine Table.ext h (Finset.ext fun k => ?_)
  rw [t.mem_keys, t'.mem_keys, h]

variable [DecidableEq K]

/-- Add a row, unless the key is in use. -/
def insertNew (t : Table K V) (k : K) (v : V) : Table K V where
  row := Function.update t.row k (some ((t.row k).getD v))
  keys := insert k t.keys
  mem_keys j := by
    by_cases hj : j = k
    · subst hj
      simp
    · rw [Function.update_of_ne hj, Finset.mem_insert, or_iff_right hj, t.mem_keys]

/-- Change the row under a key, if there is one. -/
def modify (t : Table K V) (k : K) (f : V → V) : Table K V where
  row := Function.update t.row k ((t.row k).map f)
  keys := t.keys
  mem_keys j := by
    by_cases hj : j = k
    · subst hj
      rw [Function.update_self, Option.isSome_map, t.mem_keys]
    · rw [Function.update_of_ne hj, t.mem_keys]

section

variable {t : Table K V} {k j : K} {v : V} {f g : V → V}

theorem row_insertNew_self : (t.insertNew k v).row k = some ((t.row k).getD v) :=
  Function.update_self ..

theorem row_insertNew_of_ne (h : j ≠ k) : (t.insertNew k v).row j = t.row j :=
  Function.update_of_ne h ..

theorem row_modify_self : (t.modify k f).row k = (t.row k).map f :=
  Function.update_self ..

theorem row_modify_of_ne (h : j ≠ k) : (t.modify k f).row j = t.row j :=
  Function.update_of_ne h ..

theorem insertNew_comm {v' : V} (h : j ≠ k) :
    (t.insertNew k v).insertNew j v' = (t.insertNew j v').insertNew k v := by
  refine eq_of_row ?_
  show Function.update (t.insertNew k v).row j (some (((t.insertNew k v).row j).getD v')) =
    Function.update (t.insertNew j v').row k (some (((t.insertNew j v').row k).getD v))
  rw [row_insertNew_of_ne h, row_insertNew_of_ne h.symm]
  exact Function.update_comm h.symm ..

theorem modify_comm (h : j ≠ k) : (t.modify k f).modify j g = (t.modify j g).modify k f := by
  refine eq_of_row ?_
  show Function.update (t.modify k f).row j (((t.modify k f).row j).map g) =
    Function.update (t.modify j g).row k (((t.modify j g).row k).map f)
  rw [row_modify_of_ne h, row_modify_of_ne h.symm]
  exact Function.update_comm h.symm ..

theorem modify_insertNew_comm (h : j ≠ k) :
    (t.insertNew k v).modify j f = (t.modify j f).insertNew k v := by
  refine eq_of_row ?_
  show Function.update (t.insertNew k v).row j (((t.insertNew k v).row j).map f) =
    Function.update (t.modify j f).row k (some (((t.modify j f).row k).getD v))
  rw [row_insertNew_of_ne h, row_modify_of_ne h.symm]
  exact Function.update_comm h.symm ..

end

/-! ## Sums -/

section

variable [AddCommMonoid M]

/-- What the row under a key adds to a sum. -/
def share (t : Table K V) (f : V → M) (k : K) : M := (t.row k).elim 0 f

/-- The sum of a quantity over all rows. -/
def sum (t : Table K V) (f : V → M) : M := ∑ k ∈ t.keys, t.share f k

omit [DecidableEq K] in
theorem sum_empty (f : V → M) : (∅ : Table K V).sum f = 0 := Finset.sum_empty

omit [DecidableEq K] in
/-- Keys without a row add nothing. -/
theorem sum_eq_of_subset (t : Table K V) (f : V → M) {s : Finset K} (h : t.keys ⊆ s) :
    t.sum f = ∑ k ∈ s, t.share f k := by
  refine Finset.sum_subset h fun k _ hk => ?_
  have hnone : t.row k = none := by
    rw [← Option.not_isSome_iff_eq_none, ← t.mem_keys]
    exact hk
  rw [share, hnone]
  rfl

theorem sum_insertNew {t : Table K V} {k : K} (h : t.row k = none) (v : V) (f : V → M) :
    (t.insertNew k v).sum f = f v + t.sum f := by
  have hk : k ∉ t.keys := by
    rw [t.mem_keys, h]
    exact Bool.false_ne_true
  show ∑ j ∈ insert k t.keys, (t.insertNew k v).share f j = _
  rw [Finset.sum_insert hk, share, row_insertNew_self, h]
  refine congrArg _ (Finset.sum_congr rfl fun j hj => ?_)
  have hne : j ≠ k := fun he => hk (he ▸ hj)
  rw [share, row_insertNew_of_ne hne]
  rfl

omit [DecidableEq K] in
theorem sum_nonneg [PartialOrder M] [IsOrderedAddMonoid M] (t : Table K V) {f : V → M}
    (h : ∀ k v, t.row k = some v → 0 ≤ f v) : 0 ≤ t.sum f := by
  refine Finset.sum_nonneg fun k _ => ?_
  unfold share
  cases hk : t.row k with
  | none => exact le_rfl
  | some v => exact h k v hk

theorem sum_le_sum [PartialOrder M] [IsOrderedAddMonoid M] {t t' : Table K V} {f : V → M}
    (h : ∀ k, t.share f k ≤ t'.share f k) : t.sum f ≤ t'.sum f := by
  rw [t.sum_eq_of_subset f Finset.subset_union_left,
    t'.sum_eq_of_subset f Finset.subset_union_right]
  exact Finset.sum_le_sum fun k _ => h k

end

theorem sum_modify [AddCommGroup M] {t : Table K V} {k : K} {v : V} (h : t.row k = some v)
    (g : V → V)
    (f : V → M) : (t.modify k g).sum f = t.sum f + (f (g v) - f v) := by
  have hk : k ∈ t.keys := by
    rw [t.mem_keys, h]
    rfl
  have hrest :
    ∑ j ∈ t.keys.erase k, (t.modify k g).share f j = ∑ j ∈ t.keys.erase k, t.share f j := by
    refine Finset.sum_congr rfl fun j hj => ?_
    rw [share, row_modify_of_ne (Finset.ne_of_mem_erase hj)]
    rfl
  have hself : (t.modify k g).share f k = f (g v) := by
    rw [share, row_modify_self, h]
    rfl
  have hbefore : t.share f k = f v := by
    rw [share, h]
    rfl
  show ∑ j ∈ t.keys, (t.modify k g).share f j = _
  rw [← Finset.add_sum_erase _ _ hk, hself, hrest, sum, ← Finset.add_sum_erase _ _ hk, hbefore]
  abel

end Table
