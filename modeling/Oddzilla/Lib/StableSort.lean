import Mathlib.Data.List.Sort
import Mathlib.Data.List.TakeWhile

/-!
# Sorting by a key

What a stable sort by a key leaves to the order of its input: the places of elements of
equal key.  An element that comes first of its key stands behind those of smaller key
only, and what is shown of the first places is the same for every order exactly when
elements of equal key that reach them look alike.
-/

namespace StableSort

variable {α β κ : Type} [LinearOrder κ] {key : α → κ} {r : α → α → Prop} [DecidableRel r]
  {l l' : List α} {x : α}

variable (hr : ∀ a b, r a b ↔ key a ≤ key b)
include hr

theorem sorted (l : List α) : (l.insertionSort r).Pairwise fun a b => key a ≤ key b := by
  have : Std.Total r := ⟨fun a b => (le_total (key a) (key b)).imp (hr a b).mpr (hr b a).mpr⟩
  have : IsTrans α r := ⟨fun a b c hab hbc =>
    (hr a c).mpr (((hr a b).mp hab).trans ((hr b c).mp hbc))⟩
  exact (List.pairwise_insertionSort r l).imp fun hab => (hr _ _).mp hab

/-- The first element of the input stands behind those of smaller key only. -/
theorem first (x : α) (l : List α) : ∃ l₁ l₂, (x :: l).insertionSort r = l₁ ++ x :: l₂ ∧
    (∀ d ∈ l₁, key d < key x) ∧ ∀ d ∈ l₂, key x ≤ key d := by
  refine ⟨_, _, List.insertionSort_cons_eq_take_drop r x l, ?_, ?_⟩
  · intro d hd
    have hnot := List.mem_takeWhile_imp hd
    rw [decide_eq_true_eq, hr] at hnot
    exact not_le.mp hnot
  · have hsorted := sorted hr (x :: l)
    rw [List.insertionSort_cons_eq_take_drop r x l] at hsorted
    exact (List.pairwise_cons.mp (List.pairwise_append.mp hsorted).2.1).1

omit hr [DecidableRel r]

/-- How many elements of a sorted list have a smaller key, by where it is cut. -/
theorem length_before {l₁ l₂ : List α} (h₁ : ∀ d ∈ l₁, key d < key x)
    (h₂ : ∀ d ∈ l₂, key x ≤ key d) :
    ((l₁ ++ x :: l₂).filter fun d => decide (key d < key x)).length = l₁.length := by
  rw [List.filter_append, List.filter_eq_self.mpr fun d hd => decide_eq_true (h₁ d hd),
    List.filter_eq_nil_iff.mpr, List.append_nil]
  intro d hd hlt
  rcases List.mem_cons.mp hd with rfl | hd
  · exact lt_irrefl _ (of_decide_eq_true hlt)
  · exact not_lt.mpr (h₂ d hd) (of_decide_eq_true hlt)

/-- Before a place of a list stand all that have a smaller key, when none comes behind. -/
theorem length_before_le {k : κ} {i : Nat} (h : ∀ d ∈ l.drop i, k ≤ key d) :
    (l.filter fun d => decide (key d < k)).length ≤ i := by
  have hrest : (l.drop i).filter (fun d => decide (key d < k)) = [] := by
    rw [List.filter_eq_nil_iff]
    intro d hd hlt
    exact not_lt.mpr (h d hd) (of_decide_eq_true hlt)
  calc (l.filter fun d => decide (key d < k)).length
      = ((l.take i).filter fun d => decide (key d < k)).length := by
        conv_lhs => rw [← List.take_append_drop i l, List.filter_append, hrest, List.append_nil]
    _ ≤ (l.take i).length := List.length_filter_le ..
    _ ≤ i := List.length_take_le ..

theorem keys_eq (h : l.Pairwise fun a b => key a ≤ key b)
    (h' : l'.Pairwise fun a b => key a ≤ key b) (hperm : l.Perm l') : l.map key = l'.map key := by
  refine List.Perm.eq_of_pairwise (fun a b _ _ => le_antisymm) ?_ ?_ (hperm.map key)
  · exact List.pairwise_map.mpr h
  · exact List.pairwise_map.mpr h'

/-- The first places show the same when elements of one key that reach them look alike. -/
theorem take_map_eq {look : α → β} {n : Nat} (h : l.Pairwise fun a b => key a ≤ key b)
    (h' : l'.Pairwise fun a b => key a ≤ key b) (hperm : l.Perm l')
    (halike : ∀ a ∈ l, ∀ b ∈ l, key a = key b →
      (l.filter fun d => decide (key d < key a)).length < n → look a = look b) :
    (l.take n).map look = (l'.take n).map look := by
  have hlength := hperm.length_eq
  refine List.ext_getElem (by simp [hlength]) ?_
  intro i hi hi'
  rw [List.length_map, List.length_take] at hi hi'
  have hil : i < l.length := by omega
  have hil' : i < l'.length := by omega
  rw [List.getElem_map, List.getElem_map, List.getElem_take, List.getElem_take]
  have hkey : key l[i] = key l'[i] := by
    have hkeys := keys_eq h h' hperm
    have hget : (l.map key)[i]? = (l'.map key)[i]? := by rw [hkeys]
    simpa [hil, hil'] using hget
  have hbefore : (l.filter fun d => decide (key d < key l[i])).length ≤ i := by
    refine length_before_le fun d hd => ?_
    have hsorted := h.sublist (List.drop_sublist i l)
    rw [List.drop_eq_getElem_cons hil] at hd hsorted
    rcases List.mem_cons.mp hd with rfl | hd
    · exact le_refl _
    · exact (List.pairwise_cons.mp hsorted).1 d hd
  exact halike _ (List.getElem_mem hil) _ (hperm.mem_iff.mpr (List.getElem_mem hil')) hkey
    (by omega)

end StableSort
