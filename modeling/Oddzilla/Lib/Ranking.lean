import Mathlib.Data.List.Sort

/-!
# Ranks and row numbers

The rank of an element is the number of elements ahead of it.  In a list sorted by a key
that tells its elements apart this is the place of the element, and so its row number.
Counted by a coarser key, ranks are the same exactly where no element of the same coarse
key is ahead.
-/

namespace Ranking

variable {α κ τ : Type} [LinearOrder κ] [LinearOrder τ] {key : α → κ} {coarse : α → τ}
  {l l' : List α} {x : α}

def ahead (key : α → κ) (l : List α) (x : α) : Nat := l.countP fun y => key y < key x

theorem ahead_perm (h : l.Perm l') : ahead key l x = ahead key l' x := h.countP_eq _

theorem sort_perm (key : α → κ) (l : List α) : (l.insertionSort fun a b => key a ≤ key b).Perm l :=
  List.perm_insertionSort _ l

/-- A sort by distinct keys has one result. -/
theorem sort_strict (h : l.Pairwise fun a b => key a ≠ key b) :
    (l.insertionSort fun a b => key a ≤ key b).Pairwise fun a b => key a < key b := by
  have : Std.Total fun a b : α => key a ≤ key b := ⟨fun a b => le_total _ _⟩
  have : IsTrans α fun a b => key a ≤ key b := ⟨fun _ _ _ => le_trans⟩
  have hsorted := List.pairwise_insertionSort (fun a b => key a ≤ key b) l
  have hne := (sort_perm key l).pairwise_iff (R := fun a b => key a ≠ key b) fun h => h.symm
  exact (hsorted.and (hne.mpr h)).imp fun ⟨hle, hne⟩ => lt_of_le_of_ne hle hne

theorem ahead_getElem (h : l.Pairwise fun a b => key a < key b) {i : Nat} (hi : l[i]? = some x) :
    ahead key l x = i := by
  induction l generalizing i with
  | nil => cases hi
  | cons y l ih =>
    obtain ⟨hy, hl⟩ := List.pairwise_cons.mp h
    unfold ahead
    rw [List.countP_cons]
    cases i with
    | zero =>
      obtain rfl : y = x := by simpa using hi
      rw [List.countP_eq_zero.mpr fun z hz => by simpa using (hy z hz).le]
      simp
    | succ i =>
      have hx : l[i]? = some x := by simpa using hi
      have hyx : key y < key x := hy x (List.mem_of_getElem? hx)
      rw [if_pos (by simpa using hyx)]
      exact congrArg (· + 1) (ih hl hx)

theorem ahead_le (hmono : ∀ a b, coarse a < coarse b → key a < key b) (l : List α) (x : α) :
    ahead coarse l x ≤ ahead key l x :=
  List.countP_mono_left fun y _ hy => by simpa using hmono y x (by simpa using hy)

/-- Nobody is overlooked by the coarser key. -/
theorem ahead_eq_iff (hmono : ∀ a b, coarse a < coarse b → key a < key b) :
    ahead coarse l x = ahead key l x ↔ ∀ y ∈ l, key y < key x → coarse y < coarse x := by
  induction l with
  | nil => simp [ahead]
  | cons y l ih =>
    have hle := ahead_le hmono l x
    unfold ahead at ih hle ⊢
    rw [List.countP_cons, List.countP_cons, List.forall_mem_cons, ← ih]
    by_cases hy : coarse y < coarse x
    · simp [hy, hmono y x hy]
    · by_cases hkey : key y < key x
      · simp only [hy, hkey, decide_true, decide_false, if_true]
        constructor
        · intro h
          simp at h
          omega
        · exact fun h => absurd (h.1 trivial) not_false
      · simp [hy, hkey]

end Ranking
