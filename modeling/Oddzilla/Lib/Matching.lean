import Mathlib.Data.List.Perm.Subperm
import Mathlib.Data.List.Perm.Basic
import Mathlib.Data.Nat.Find

/-!
# Matchings of two lists

A matching pairs elements of two lists that agree, each at most once.  First fit gives
each element of the left the first free one of the right: what it makes cannot be
extended, and in a suitable order of both lists it makes any matching that cannot be.
So first fit is the largest matching in every order exactly when no matching that
cannot be extended is smaller than another.
-/

namespace Matching

variable {α β : Type} (agree : α → β → Bool)

/-- How many pairs first fit makes. -/
def firstFit : List α → List β → Nat
  | [], _ => 0
  | x :: left, right =>
    if right.any (agree x) then 1 + firstFit left (right.eraseP (agree x)) else firstFit left right

/-- Pairs that agree, and what is left of both lists. -/
structure IsMatching (left : List α) (right : List β) (pairs : List (α × β)) (freeLeft : List α)
    (freeRight : List β) : Prop where
  agrees : ∀ p ∈ pairs, agree p.1 p.2 = true
  left : (pairs.map Prod.fst ++ freeLeft).Perm left
  right : (pairs.map Prod.snd ++ freeRight).Perm right

/-- Nothing that is left agrees. -/
structure IsMaximal (left : List α) (right : List β) (pairs : List (α × β)) (freeLeft : List α)
    (freeRight : List β) : Prop extends IsMatching agree left right pairs freeLeft freeRight where
  stuck : ∀ x ∈ freeLeft, ∀ y ∈ freeRight, agree x y = false

/-- The size of a largest matching. -/
structure IsLargest (left : List α) (right : List β) (m : Nat) : Prop where
  reached : ∃ pairs freeLeft freeRight, IsMatching agree left right pairs freeLeft freeRight ∧
    pairs.length = m
  most : ∀ pairs freeLeft freeRight, IsMatching agree left right pairs freeLeft freeRight →
    pairs.length ≤ m

/-- A matching that cannot be extended is a largest one. -/
def Equimatchable (left : List α) (right : List β) : Prop :=
  ∀ pairs freeLeft freeRight, IsMaximal agree left right pairs freeLeft freeRight →
    IsLargest agree left right pairs.length

variable {agree} {left left' : List α} {right right' : List β} {pairs : List (α × β)}
  {freeLeft : List α} {freeRight : List β} {m : Nat}

theorem IsMatching.length_le (h : IsMatching agree left right pairs freeLeft freeRight) :
    pairs.length ≤ left.length ∧ pairs.length ≤ right.length := by
  have hleft := h.left.length_eq
  have hright := h.right.length_eq
  rw [List.length_append, List.length_map] at hleft hright
  exact ⟨by omega, by omega⟩

theorem IsMatching.perm (h : IsMatching agree left right pairs freeLeft freeRight)
    (hleft : left.Perm left') (hright : right.Perm right') :
    IsMatching agree left' right' pairs freeLeft freeRight :=
  ⟨h.agrees, h.left.trans hleft, h.right.trans hright⟩

theorem IsMaximal.perm (h : IsMaximal agree left right pairs freeLeft freeRight)
    (hleft : left.Perm left') (hright : right.Perm right') :
    IsMaximal agree left' right' pairs freeLeft freeRight :=
  ⟨h.toIsMatching.perm hleft hright, h.stuck⟩

theorem IsLargest.perm (h : IsLargest agree left right m) (hleft : left.Perm left')
    (hright : right.Perm right') : IsLargest agree left' right' m := by
  obtain ⟨pairs, freeLeft, freeRight, hmatching, hm⟩ := h.reached
  refine ⟨⟨pairs, freeLeft, freeRight, hmatching.perm hleft hright, hm⟩, ?_⟩
  exact fun ps l r hps => h.most ps l r (hps.perm hleft.symm hright.symm)

theorem IsLargest.unique {m' : Nat} (h : IsLargest agree left right m)
    (h' : IsLargest agree left right m') : m = m' := by
  obtain ⟨pairs, l, r, hpairs, rfl⟩ := h.reached
  obtain ⟨pairs', l', r', hpairs', rfl⟩ := h'.reached
  exact Nat.le_antisymm (h'.most _ _ _ hpairs) (h.most _ _ _ hpairs')

theorem exists_largest : ∃ m, IsLargest agree left right m := by
  classical
  let Made : Nat → Prop := fun m => ∃ pairs freeLeft freeRight,
    IsMatching agree left right pairs freeLeft freeRight ∧ pairs.length = m
  have hzero : Made 0 := ⟨[], left, right, ⟨by simp, .refl _, .refl _⟩, rfl⟩
  refine ⟨Nat.findGreatest Made left.length, Nat.findGreatest_spec (Nat.zero_le _) hzero, ?_⟩
  intro pairs freeLeft freeRight h
  exact Nat.le_findGreatest h.length_le.1 ⟨pairs, freeLeft, freeRight, h, rfl⟩

theorem Equimatchable.perm (h : Equimatchable agree left right) (hleft : left.Perm left')
    (hright : right.Perm right') : Equimatchable agree left' right' := fun ps l r hps =>
  (h ps l r (hps.perm hleft.symm hright.symm)).perm hleft hright

/-! ## Turned round -/

theorem IsMatching.swap (h : IsMatching agree left right pairs freeLeft freeRight) :
    IsMatching (fun y x => agree x y) right left (pairs.map Prod.swap) freeRight freeLeft := by
  refine ⟨?_, ?_, ?_⟩
  · intro p hp
    obtain ⟨q, hq, rfl⟩ := List.mem_map.mp hp
    exact h.agrees q hq
  · rw [List.map_map]
    exact h.right
  · rw [List.map_map]
    exact h.left

theorem IsMaximal.swap (h : IsMaximal agree left right pairs freeLeft freeRight) :
    IsMaximal (fun y x => agree x y) right left (pairs.map Prod.swap) freeRight freeLeft :=
  ⟨h.toIsMatching.swap, fun y hy x hx => h.stuck x hx y hy⟩

theorem IsLargest.swap (h : IsLargest agree left right m) :
    IsLargest (fun y x => agree x y) right left m := by
  obtain ⟨pairs, freeLeft, freeRight, hmatching, hm⟩ := h.reached
  refine ⟨⟨_, _, _, hmatching.swap, by rwa [List.length_map]⟩, ?_⟩
  intro ps l r hps
  have hle := h.most _ _ _ hps.swap
  rwa [List.length_map] at hle

theorem Equimatchable.swap (h : Equimatchable agree left right) :
    Equimatchable (fun y x => agree x y) right left := by
  intro pairs freeRight freeLeft hmax
  have hlargest := (h _ _ _ hmax.swap).swap
  rwa [List.length_map] at hlargest

/-! ## First fit -/

/-- What first fit makes cannot be extended. -/
theorem firstFit_maximal (left : List α) (right : List β) : ∃ pairs freeLeft freeRight,
    IsMaximal agree left right pairs freeLeft freeRight ∧ pairs.length = firstFit agree left right := by
  induction left generalizing right with
  | nil => exact ⟨[], [], right, ⟨⟨by simp, .refl _, .refl _⟩, by simp⟩, rfl⟩
  | cons x left ih =>
    by_cases hany : right.any (agree x) = true
    · obtain ⟨y, hy, hxy⟩ := List.any_eq_true.mp hany
      obtain ⟨z, l₁, l₂, -, hxz, hright, herase⟩ := List.exists_of_eraseP hy hxy
      obtain ⟨pairs, freeLeft, freeRight, h, hlength⟩ := ih (right.eraseP (agree x))
      refine ⟨(x, z) :: pairs, freeLeft, freeRight, ⟨⟨?_, h.left.cons x, ?_⟩, h.stuck⟩, ?_⟩
      · intro p hp
        rcases List.mem_cons.mp hp with rfl | hp
        · exact hxz
        · exact h.agrees p hp
      · have hperm : (z :: right.eraseP (agree x)).Perm right := by
          rw [herase, hright]
          exact List.perm_middle.symm
        exact (h.right.cons z).trans hperm
      · rw [firstFit, if_pos hany, List.length_cons, hlength, Nat.add_comm]
    · obtain ⟨pairs, freeLeft, freeRight, h, hlength⟩ := ih right
      refine ⟨pairs, x :: freeLeft, freeRight, ⟨⟨h.agrees, ?_, h.right⟩, ?_⟩, ?_⟩
      · exact List.perm_middle.trans (h.left.cons x)
      · intro x' hx' y hy
        rcases List.mem_cons.mp hx' with rfl | hx'
        · have hmem : y ∈ right := h.right.mem_iff.mp (List.mem_append_right _ hy)
          by_contra hxy
          exact hany (List.any_eq_true.mpr ⟨y, hmem, by simpa using hxy⟩)
        · exact h.stuck x' hx' y hy
      · rw [firstFit, if_neg hany, hlength]

theorem firstFit_stuck (h : ∀ x ∈ left, ∀ y ∈ right, agree x y = false) :
    firstFit agree left right = 0 := by
  induction left with
  | nil => rfl
  | cons x left ih =>
    have hnone : right.any (agree x) = false := by
      rw [List.any_eq_false]
      intro y hy
      rw [h x (List.mem_cons_self ..) y hy]
      decide
    rw [firstFit, hnone, if_neg Bool.false_ne_true]
    exact ih fun x' hx' => h x' (List.mem_cons_of_mem _ hx')

/-- With the pairs in front of both lists, first fit makes these pairs. -/
theorem firstFit_pairs (hagrees : ∀ p ∈ pairs, agree p.1 p.2 = true)
    (hstuck : ∀ x ∈ freeLeft, ∀ y ∈ freeRight, agree x y = false) :
    firstFit agree (pairs.map Prod.fst ++ freeLeft) (pairs.map Prod.snd ++ freeRight) =
      pairs.length := by
  induction pairs with
  | nil => exact firstFit_stuck hstuck
  | cons p pairs ih =>
    have hp := hagrees p (List.mem_cons_self ..)
    have hrest := ih fun q hq => hagrees q (List.mem_cons_of_mem _ hq)
    rw [List.map_cons, List.map_cons, List.cons_append, List.cons_append, firstFit,
      List.any_cons, hp, Bool.true_or, if_pos rfl, List.eraseP_cons_of_pos hp, hrest,
      List.length_cons, Nat.add_comm]

/-- First fit is the largest matching in every order of both lists exactly when no
matching that cannot be extended is smaller than another. -/
theorem firstFit_largest_iff : (∀ left' right', left'.Perm left → right'.Perm right →
      IsLargest agree left right (firstFit agree left' right')) ↔ Equimatchable agree left right := by
  constructor
  · intro h pairs freeLeft freeRight hmax
    have hlargest := h _ _ hmax.left hmax.right
    rwa [firstFit_pairs hmax.agrees hmax.stuck] at hlargest
  · intro h left' right' hleft hright
    obtain ⟨pairs, freeLeft, freeRight, hmax, hlength⟩ := @firstFit_maximal α β agree left' right'
    rw [← hlength]
    exact h pairs freeLeft freeRight (hmax.perm hleft hright)

end Matching
